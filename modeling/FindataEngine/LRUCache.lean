import Mathlib.Data.List.AList

/-!
# The LRU cache of `utils.hpp`

`utils::LRUCache<K, V>` keeps its entries in a doubly-linked list from `head_` (most recent) to
`tail_` (least recent), and owns every node through the `unique_ptr`s of the map `cache_`. The
model keeps the nodes in a heap by address: a pointer is an address, `make_unique` hands out a
fresh one, and destroying a `unique_ptr` frees its node. Reading or writing through a null or
dangling pointer is undefined behaviour, and a call that does so returns `none`. Each statement
of `move_to_front`, `get`, `put` and `clear` is one read or one write, in the code's order.

`remove_node` is never called and is left out.

The reference model `LRUModel` is what the cache is for: a list of (key, value) pairs by
recency, with at most `max_size` entries.
-/

set_option autoImplicit false

namespace FindataEngine

namespace Utils

/-- `LRUCache::Node`: a key, its value, and the links of the recency list. -/
structure Node (K V : Type) where
  key : K
  value : V
  prev : Option Nat
  next : Option Nat

/-- `utils::LRUCache<K, V>`: `max_size_`, `head_`, `tail_` and `cache_`, with the memory of the
allocated nodes and the address the next `make_unique<Node>` returns. -/
structure LRUCache (K V : Type) where
  maxSize : Nat
  head : Option Nat
  tail : Option Nat
  cache : AList fun _ : K => Nat
  heap : Nat → Option (Node K V)
  nextAddress : Nat

namespace LRUCache

variable {K V : Type} [DecidableEq K]

/-- `LRUCache(max_size)`. -/
def new (maxSize : Nat) : LRUCache K V := ⟨maxSize, none, none, ∅, fun _ => none, 0⟩

/-- The node at address `a` replaced by `n`. -/
def write (c : LRUCache K V) (a : Nat) (n : Node K V) : LRUCache K V :=
  { c with heap := Function.update c.heap a (some n) }

/-- `ptr->next = next`. -/
def setNext (c : LRUCache K V) (ptr next : Option Nat) : Option (LRUCache K V) := do
  let a ← ptr
  let n ← c.heap a
  some (c.write a { n with next := next })

/-- `ptr->prev = prev`. -/
def setPrev (c : LRUCache K V) (ptr prev : Option Nat) : Option (LRUCache K V) := do
  let a ← ptr
  let n ← c.heap a
  some (c.write a { n with prev := prev })

/-- `head_->prev = node; head_ = node;`, the last lines of `move_to_front` and of `put`. -/
def linkHead (c : LRUCache K V) (node : Nat) : Option (LRUCache K V) := do
  let c ← c.setPrev c.head (some node)
  some { c with head := some node }

/-- The first lines of `move_to_front`: `node`'s neighbours are linked to each other, and
`tail_` moves to `node->prev` when `node` has no successor. -/
def unlink (c : LRUCache K V) (node : Nat) : Option (LRUCache K V) := do
  let n ← c.heap node
  let c ← c.setNext n.prev n.next
  let n ← c.heap node
  match n.next with
  | some _ => c.setPrev n.next n.prev
  | none => some { c with tail := n.prev }

/-- The last lines of `move_to_front`: `node` is linked in front of `head_`. -/
def linkFront (c : LRUCache K V) (node : Nat) : Option (LRUCache K V) := do
  let c ← c.setNext (some node) c.head
  let c ← c.setPrev (some node) none
  c.linkHead node

/-- `move_to_front(node)`. -/
def moveToFront (c : LRUCache K V) (node : Nat) : Option (LRUCache K V) :=
  if c.head = some node then some c
  else do
    let c ← c.unlink node
    c.linkFront node

/-- `get(key)`: the value after `move_to_front`, or `nullopt`. -/
def get (c : LRUCache K V) (key : K) : Option (Option V × LRUCache K V) :=
  match c.cache.lookup key with
  | none => some (none, c)
  | some node => do
    let c ← c.moveToFront node
    let n ← c.heap node
    some (some n.value, c)

/-- `cache_.erase(key)`: the `unique_ptr` of the key frees its node. -/
def erase (c : LRUCache K V) (key : K) : LRUCache K V :=
  match c.cache.lookup key with
  | none => c
  | some a => { c with cache := c.cache.erase key, heap := Function.update c.heap a none }

/-- The end of `put` once `cache_` holds more than `max_size_` entries: the tail is dropped. -/
def evict (c : LRUCache K V) : Option (LRUCache K V) := do
  let t ← c.tail
  let tailNode ← c.heap t
  let c ← c.setNext tailNode.prev none
  let c := c.erase tailNode.key
  some { c with tail := tailNode.prev }

/-- `make_unique<Node>(key, value)` at the next address, linked in front of the list. -/
def pushFront (c : LRUCache K V) (key : K) (value : V) : Option (LRUCache K V) :=
  let node := c.nextAddress
  let c := { c.write node ⟨key, value, none, none⟩ with nextAddress := node + 1 }
  if c.head.isNone then some { c with head := some node, tail := some node }
  else do
    let c ← c.setNext (some node) c.head
    c.linkHead node

/-- `put(key, value)`. -/
def put (c : LRUCache K V) (key : K) (value : V) : Option (LRUCache K V) :=
  match c.cache.lookup key with
  | some node => do
    let n ← c.heap node
    (c.write node { n with value := value }).moveToFront node
  | none => do
    let node := c.nextAddress
    let c ← c.pushFront key value
    let c := { c with cache := c.cache.insert key node }
    if c.maxSize < c.cache.entries.length then c.evict else some c

/-- `clear()`: `cache_.clear()` frees every node it owns. -/
def clear (c : LRUCache K V) : LRUCache K V :=
  { c with
    head := none
    tail := none
    cache := ∅
    heap := fun a => if a ∈ c.cache.entries.map (·.2) then none else c.heap a }

/-- `size()`. -/
def size (c : LRUCache K V) : Nat := c.cache.entries.length

end LRUCache

/-- A call of the cache's interface. -/
inductive CacheOp (K V : Type) where
  | get (key : K)
  | put (key : K) (value : V)
  | clear
  | size

/-- What a call returns: the optional value of `get`, the count of `size`, or nothing. -/
inductive Reply (V : Type) where
  | value (v : Option V)
  | size (n : Nat)
  | done
  deriving DecidableEq

namespace LRUCache

variable {K V : Type} [DecidableEq K]

/-- One call on the cache; `none` when it reaches undefined behaviour. -/
def apply (c : LRUCache K V) : CacheOp K V → Option (Reply V × LRUCache K V)
  | .get key => (c.get key).map fun r => (.value r.1, r.2)
  | .put key value => (c.put key value).map fun c => (.done, c)
  | .clear => some (.done, c.clear)
  | .size => some (.size c.size, c)

/-- A sequence of calls, with the replies in order. -/
def run (c : LRUCache K V) : List (CacheOp K V) → Option (List (Reply V) × LRUCache K V)
  | [] => some ([], c)
  | op :: ops => do
    let r ← c.apply op
    let rs ← r.2.run ops
    some (r.1 :: rs.1, rs.2)

end LRUCache

/-- The reference model: the entries by recency, most recent first, and the capacity. -/
structure LRUModel (K V : Type) where
  maxSize : Nat
  entries : List (K × V)

namespace LRUModel

variable {K V : Type} [DecidableEq K]

/-- An empty model of capacity `maxSize`. -/
def new (maxSize : Nat) : LRUModel K V := ⟨maxSize, []⟩

/-- `get` moves the key to the front and returns its value. -/
def get (m : LRUModel K V) (key : K) : Option V × LRUModel K V :=
  match m.entries.lookup key with
  | none => (none, m)
  | some v => (some v, ⟨m.maxSize, (key, v) :: m.entries.filter fun e => e.1 ≠ key⟩)

/-- `put` sets the key's value and moves it to the front, then drops the least recent entry if
there are more than `maxSize`. -/
def put (m : LRUModel K V) (key : K) (value : V) : LRUModel K V :=
  let entries := (key, value) :: m.entries.filter fun e => e.1 ≠ key
  ⟨m.maxSize, if m.maxSize < entries.length then entries.dropLast else entries⟩

/-- One call on the model. -/
def apply (m : LRUModel K V) : CacheOp K V → Reply V × LRUModel K V
  | .get key => (.value (m.get key).1, (m.get key).2)
  | .put key value => (.done, m.put key value)
  | .clear => (.done, ⟨m.maxSize, []⟩)
  | .size => (.size m.entries.length, m)

/-- A sequence of calls, with the replies in order. -/
def run (m : LRUModel K V) : List (CacheOp K V) → List (Reply V) × LRUModel K V
  | [] => ([], m)
  | op :: ops => ((m.apply op).1 :: ((m.apply op).2.run ops).1, ((m.apply op).2.run ops).2)

@[simp] theorem maxSize_apply (m : LRUModel K V) (op : CacheOp K V) :
    (m.apply op).2.maxSize = m.maxSize := by
  cases op with
  | get key =>
    show (m.get key).2.maxSize = m.maxSize
    unfold get
    split <;> rfl
  | _ => rfl

end LRUModel

end Utils

end FindataEngine
