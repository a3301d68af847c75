import FindataEngine.LRUCache
import FindataEngine.Calls

/-!
# The LRU cache refines its reference model

A cache represents a model when its list from `head_` to `tail_` links, in order, nodes that hold
the model's entries (`Layout`). The list is described by segments: `Chain heap prev cells next`
says that the nodes at the cells' addresses hold the cells' entries, each linked to its
neighbours, the first one's `prev` being `prev` and the last one's `next` being `next`. Segments
split at any point (`chain_append`) and survive writes to other addresses (`Chain.frame`).

`move_to_front` unlinks the node (`unlink`) and links it in front (`linkFront`); `put` of a new
key links a fresh node in front and may drop the tail (`evict`). Each call keeps the layout of
the model's next entries (`Represents.apply`), so from a new cache of capacity at least one,
every run of `get`, `put`, `clear` and `size` returns what the model returns, never reaches
undefined behaviour, and ends with the list from `head_` to `tail_` visiting each node that
`cache_` owns exactly once, with consistent links (`run_refines_model`). With capacity zero the
first `put` dereferences a null pointer (`put_new_zero_undefined`).
-/

set_option autoImplicit false

namespace FindataEngine

namespace Utils

namespace LRUCache

open List

variable {K V : Type}

/-! ## Doubly-linked segments -/

/-- The address of the first cell of a segment. -/
def firstAddr (cells : List (Nat × (K × V))) : Option Nat := cells.head?.map (·.1)

/-- The address of the last cell of a segment. -/
def lastAddr (cells : List (Nat × (K × V))) : Option Nat := cells.getLast?.map (·.1)

@[simp] theorem firstAddr_nil : firstAddr ([] : List (Nat × (K × V))) = none := rfl

@[simp] theorem firstAddr_cons (x : Nat × (K × V)) (cells : List (Nat × (K × V))) :
    firstAddr (x :: cells) = some x.1 := rfl

@[simp] theorem lastAddr_nil : lastAddr ([] : List (Nat × (K × V))) = none := rfl

@[simp] theorem lastAddr_singleton (x : Nat × (K × V)) : lastAddr [x] = some x.1 := rfl

theorem lastAddr_cons (x : Nat × (K × V)) (cells : List (Nat × (K × V))) :
    lastAddr (x :: cells) = (lastAddr cells).or (some x.1) := by
  cases cells <;> simp [lastAddr, getLast?_cons]

@[simp] theorem lastAddr_cons_cons (x y : Nat × (K × V)) (cells : List (Nat × (K × V))) :
    lastAddr (x :: y :: cells) = lastAddr (y :: cells) := by
  rw [lastAddr_cons x, lastAddr_cons y, Option.or_assoc, Option.or_some]

theorem lastAddr_cons_of_ne_nil (x : Nat × (K × V)) {cells : List (Nat × (K × V))}
    (h : cells ≠ []) : lastAddr (x :: cells) = lastAddr cells := by
  obtain ⟨y, cells, rfl⟩ := exists_cons_of_ne_nil h
  rw [lastAddr_cons x, lastAddr_cons y, Option.or_assoc, Option.or_some]

theorem firstAddr_append (xs ys : List (Nat × (K × V))) :
    firstAddr (xs ++ ys) = (firstAddr xs).or (firstAddr ys) := by
  cases xs <;> rfl

theorem lastAddr_append (xs ys : List (Nat × (K × V))) :
    lastAddr (xs ++ ys) = (lastAddr ys).or (lastAddr xs) := by
  simp only [lastAddr, getLast?_append]
  cases ys.getLast? <;> rfl

theorem lastAddr_append_cons (xs : List (Nat × (K × V))) (x : Nat × (K × V)) (ys) :
    lastAddr (xs ++ x :: ys) = lastAddr (x :: ys) := by
  rw [lastAddr_append, lastAddr_cons, Option.or_assoc, Option.or_some]

/-- The cells' nodes are linked in order: each holds its cell's entry, its `prev` is the address
before it (`prev` for the first) and its `next` the address after it (`next` for the last). -/
def Chain (heap : Nat → Option (Node K V)) :
    Option Nat → List (Nat × (K × V)) → Option Nat → Prop
  | _, [], _ => True
  | prev, (a, k, v) :: cells, next =>
    heap a = some ⟨k, v, prev, (firstAddr cells).or next⟩ ∧ Chain heap (some a) cells next

section Chain

variable {heap heap' : Nat → Option (Node K V)}

@[simp] theorem chain_nil (prev next : Option Nat) : Chain heap prev [] next := trivial

theorem chain_singleton (prev next : Option Nat) (a : Nat) (e : K × V) :
    Chain heap prev [(a, e)] next ↔ heap a = some ⟨e.1, e.2, prev, next⟩ := by
  simp [Chain]

/-- A segment splits at any point into two segments that point at each other. -/
theorem chain_append :
    ∀ (prev : Option Nat) (xs ys : List (Nat × (K × V))) (next : Option Nat),
      Chain heap prev (xs ++ ys) next ↔
        Chain heap prev xs ((firstAddr ys).or next) ∧ Chain heap ((lastAddr xs).or prev) ys next
  | prev, [], ys, next => by simp
  | prev, (a, k, v) :: xs, ys, next => by
    rw [cons_append, Chain, chain_append (some a) xs ys next, Chain, firstAddr_append,
      Option.or_assoc, lastAddr_cons, Option.or_assoc, Option.or_some, and_assoc]

/-- A segment around one cell. -/
theorem chain_middle (prev next : Option Nat) (pre post : List (Nat × (K × V))) (a : Nat)
    (e : K × V) :
    Chain heap prev (pre ++ (a, e) :: post) next ↔
      Chain heap prev pre (some a) ∧
        heap a = some ⟨e.1, e.2, (lastAddr pre).or prev, (firstAddr post).or next⟩ ∧
        Chain heap (some a) post next := by
  rw [chain_append, firstAddr_cons, Option.or_some, Chain]

/-- A segment does not see writes to addresses outside it. -/
theorem Chain.frame :
    ∀ {prev : Option Nat} {cells : List (Nat × (K × V))} {next : Option Nat},
      (∀ a ∈ cells.map (·.1), heap' a = heap a) → Chain heap prev cells next →
        Chain heap' prev cells next
  | _, [], _, _, _ => trivial
  | _, (a, _) :: _, _, hsame, ⟨ha, hrest⟩ =>
    ⟨(hsame a (mem_cons_self _ _)).trans ha,
      Chain.frame (fun b hb => hsame b (mem_cons_of_mem _ hb)) hrest⟩

end Chain


/-! ## The helpers of the code, one lemma each -/

section Access

variable {c : LRUCache K V}

@[simp] theorem heap_write (a : Nat) (n : Node K V) (x : Nat) :
    (c.write a n).heap x = if x = a then some n else c.heap x :=
  Function.update_apply _ _ _ _

@[simp] theorem head_write (a : Nat) (n : Node K V) : (c.write a n).head = c.head := rfl

@[simp] theorem tail_write (a : Nat) (n : Node K V) : (c.write a n).tail = c.tail := rfl

@[simp] theorem cache_write (a : Nat) (n : Node K V) : (c.write a n).cache = c.cache := rfl

@[simp] theorem maxSize_write (a : Nat) (n : Node K V) : (c.write a n).maxSize = c.maxSize := rfl

@[simp] theorem nextAddress_write (a : Nat) (n : Node K V) :
    (c.write a n).nextAddress = c.nextAddress := rfl

theorem setNext_eq {a : Nat} {n : Node K V} (h : c.heap a = some n) (next : Option Nat) :
    c.setNext (some a) next = some (c.write a { n with next := next }) := by
  simp [setNext, h]

theorem setPrev_eq {a : Nat} {n : Node K V} (h : c.heap a = some n) (prev : Option Nat) :
    c.setPrev (some a) prev = some (c.write a { n with prev := prev }) := by
  simp [setPrev, h]

end Access

/-- An element in the middle of a list without repeats occurs on neither side. -/
theorem nodup_middle {α : Type} (l₁ l₂ : List α) {x : α} (h : (l₁ ++ x :: l₂).Nodup) :
    x ∉ l₁ ∧ x ∉ l₂ := by
  rw [nodup_append] at h
  exact ⟨fun hx => h.2.2 hx (mem_cons_self _ _), (nodup_cons.mp h.2.1).1⟩

/-- A list of two elements or more ends with two of them. -/
theorem exists_eq_append_pair {α : Type} :
    ∀ {l : List α}, 2 ≤ l.length → ∃ pre x y, l = pre ++ [x, y]
  | [x, y], _ => ⟨[], x, y, rfl⟩
  | z :: x :: y :: l, _ => by
    obtain ⟨pre, a, b, h⟩ := exists_eq_append_pair (l := x :: y :: l) (by simp)
    exact ⟨z :: pre, a, b, by rw [h, cons_append]⟩

/-! ## The list from `head_` to `tail_` -/

/-- The list from `head_` to `tail_` links exactly the cells, in order. -/
structure Linked (c : LRUCache K V) (cells : List (Nat × (K × V))) : Prop where
  chain : Chain c.heap none cells none
  head : c.head = firstAddr cells
  tail : c.tail = lastAddr cells

section Linked

variable {c : LRUCache K V}

/-- `head_->prev = node; head_ = node;` puts a node whose `next` is the head in front of the
list. -/
theorem Linked.linkHead {rest : List (Nat × (K × V))} (hc : Linked c rest) (hne : rest ≠ [])
    (hnd : (rest.map (·.1)).Nodup) {a : Nat} {k : K} {v : V}
    (ha : c.heap a = some ⟨k, v, none, c.head⟩) (hfresh : a ∉ rest.map (·.1)) :
    ∃ c', c.linkHead a = some c' ∧ Linked c' ((a, k, v) :: rest) ∧
      (∀ x, x ∉ rest.map (·.1) → c'.heap x = c.heap x) ∧
      c'.cache = c.cache ∧ c'.nextAddress = c.nextAddress ∧ c'.maxSize = c.maxSize := by
  obtain ⟨⟨h0, e0⟩, rest, rfl⟩ := exists_cons_of_ne_nil hne
  obtain ⟨h0_node, hrest⟩ := hc.chain
  have hh0 : c.head = some h0 := hc.head
  rw [map_cons, mem_cons, not_or] at hfresh
  rw [map_cons, nodup_cons] at hnd
  refine ⟨{ c.write h0 ⟨e0.1, e0.2, some a, (firstAddr rest).or none⟩ with head := some a },
    by simp only [LRUCache.linkHead, hh0, setPrev_eq h0_node]; rfl,
    ⟨⟨by simpa [hfresh.1, hh0] using ha, by simp, hrest.frame fun x hx => ?_⟩, rfl, ?_⟩,
    fun x hx => ?_, rfl, rfl, rfl⟩
  · simp [show x ≠ h0 from fun h => hnd.1 (h ▸ hx)]
  · rw [lastAddr_cons_of_ne_nil _ (cons_ne_nil _ _), ← hc.tail]
    rfl
  · simp [show x ≠ h0 from fun h => hx (h ▸ mem_cons_self _ _)]

/-- The last lines of `move_to_front` put an allocated node in front of a non-empty list. -/
theorem Linked.linkFront {rest : List (Nat × (K × V))} (hc : Linked c rest) (hne : rest ≠ [])
    (hnd : (rest.map (·.1)).Nodup) {a : Nat} {n : Node K V} (ha : c.heap a = some n)
    (hfresh : a ∉ rest.map (·.1)) :
    ∃ c', c.linkFront a = some c' ∧ Linked c' ((a, n.key, n.value) :: rest) ∧
      (∀ x, x ≠ a → x ∉ rest.map (·.1) → c'.heap x = c.heap x) ∧
      c'.cache = c.cache ∧ c'.nextAddress = c.nextAddress ∧ c'.maxSize = c.maxSize := by
  let c₁ := (c.write a { n with next := c.head }).write a { n with next := c.head, prev := none }
  have hout : ∀ x, x ≠ a → c₁.heap x = c.heap x := fun x hx => by simp [c₁, hx]
  have hlinked : Linked c₁ rest :=
    ⟨hc.chain.frame fun x hx => hout x fun h => hfresh (h ▸ hx), hc.head, hc.tail⟩
  obtain ⟨c', hc', hlinked', hframe, hcache, hnext, hmax⟩ :=
    hlinked.linkHead hne hnd (a := a) (k := n.key) (v := n.value) (by simp [c₁]) hfresh
  refine ⟨c', ?_, hlinked', fun x hxa hx => (hframe x hx).trans (hout x hxa), hcache, hnext, hmax⟩
  have ha₁ : (c.write a { n with next := c.head }).heap a = some { n with next := c.head } := by
    simp
  simp only [LRUCache.linkFront, setNext_eq ha, some_bind_eq,
    setPrev_eq ha₁]
  exact hc'

/-- `make_unique<Node>` at the next address, linked in front of the list. -/
theorem Linked.pushFront {cells : List (Nat × (K × V))} (hc : Linked c cells)
    (hnd : (cells.map (·.1)).Nodup) (hfresh : c.nextAddress ∉ cells.map (·.1)) (key : K)
    (value : V) :
    ∃ c', c.pushFront key value = some c' ∧ Linked c' ((c.nextAddress, key, value) :: cells) ∧
      (∀ x, x ≠ c.nextAddress → x ∉ cells.map (·.1) → c'.heap x = c.heap x) ∧
      c'.cache = c.cache ∧ c'.nextAddress = c.nextAddress + 1 ∧ c'.maxSize = c.maxSize := by
  let c₁ := { c.write c.nextAddress ⟨key, value, none, none⟩ with nextAddress := c.nextAddress + 1 }
  cases cells with
  | nil =>
    have hhead : c.head = none := hc.head
    refine ⟨{ c₁ with head := some c.nextAddress, tail := some c.nextAddress },
      by simp [LRUCache.pushFront, hhead], ⟨by simp [Chain, c₁], rfl, rfl⟩,
      fun x hx _ => by simp [c₁, hx], rfl, rfl, rfl⟩
  | cons x cells =>
    have hhead : c.head = some x.1 := hc.head
    let c₂ := c₁.write c.nextAddress ⟨key, value, none, some x.1⟩
    have hout : ∀ y, y ≠ c.nextAddress → c₂.heap y = c.heap y := fun y hy => by simp [c₂, c₁, hy]
    have hlinked : Linked c₂ (x :: cells) :=
      ⟨hc.chain.frame fun y hy => hout y fun h => hfresh (h ▸ hy), hc.head, hc.tail⟩
    obtain ⟨c', hc', hlinked', hframe, hcache, hnext, hmax⟩ :=
      hlinked.linkHead (cons_ne_nil _ _) hnd (a := c.nextAddress) (k := key) (v := value)
        (by simp [c₂, c₁, hhead]) hfresh
    refine ⟨c', ?_, hlinked', fun y hya hy => (hframe y hy).trans (hout y hya), hcache, hnext, hmax⟩
    have hnode : c₁.heap c.nextAddress = some ⟨key, value, none, none⟩ := by simp [c₁]
    have hsetNext : c₁.setNext (some c.nextAddress) c₁.head = some c₂ := by
      rw [setNext_eq hnode]
      simp [c₁, c₂, hhead]
    simp only [LRUCache.pushFront, Option.bind_eq_bind]
    rw [if_neg (by simp [hhead])]
    exact (congrArg (·.bind (·.linkHead c.nextAddress)) hsetNext).trans hc'

/-- The first lines of `move_to_front` take a node that has a predecessor out of the list, and
leave the node as it was. -/
theorem Linked.unlink {pre post : List (Nat × (K × V))} {a : Nat} {e : K × V}
    (hc : Linked c (pre ++ (a, e) :: post)) (hpre : pre ≠ [])
    (hnd : ((pre ++ (a, e) :: post).map (·.1)).Nodup) :
    ∃ c', c.unlink a = some c' ∧ Linked c' (pre ++ post) ∧ c'.heap a = c.heap a ∧
      (∀ x, x ∉ (pre ++ post).map (·.1) → c'.heap x = c.heap x) ∧
      c'.cache = c.cache ∧ c'.nextAddress = c.nextAddress ∧ c'.maxSize = c.maxSize := by
  obtain ⟨pre, ⟨p, ep⟩, rfl⟩ : ∃ pre' x, pre = pre' ++ [x] := by
    rcases eq_nil_or_concat pre with h | ⟨pre', x, h⟩
    · exact absurd h hpre
    · exact ⟨pre', x, h.trans (concat_eq_append _ _)⟩
  rw [append_assoc, singleton_append] at hc hnd ⊢
  obtain ⟨hpre, hp, ha, hpost⟩ := (chain_middle none none pre _ p ep).mp hc.chain
  simp only [map_append, map_cons] at hnd
  have hp_out := nodup_middle _ _ hnd
  have ha_out := nodup_middle (pre.map (·.1) ++ [p]) _ (by simpa using hnd)
  have hap : a ≠ p := fun h => hp_out.2 (h ▸ mem_cons_self _ _)
  cases post with
  | nil =>
    refine ⟨{ c.write p ⟨ep.1, ep.2, (lastAddr pre).or none, none⟩ with tail := some p },
      by simp only [LRUCache.unlink, ha, setNext_eq hp, some_bind_eq,
        heap_write, if_neg hap, firstAddr_nil, Option.or_none], ⟨?_, ?_, by simp [lastAddr_append]⟩,
      by simp [hap], fun x hx => ?_, rfl, rfl, rfl⟩
    · exact (chain_middle none none pre [] p ep).mpr
        ⟨hpre.frame fun x hx => by simp [show x ≠ p from fun h => hp_out.1 (h ▸ hx)], by simp,
          trivial⟩
    · simpa [firstAddr_append] using hc.head
    · simp [show x ≠ p from fun h => hx (by simp [h, -mem_map])]
  | cons y post =>
    obtain ⟨q, eq⟩ := y
    obtain ⟨hq, hpost⟩ := hpost
    have hq_out := nodup_middle (pre.map (·.1) ++ [p, a]) _ (by simpa using hnd)
    have hqp : q ≠ p := fun h => hp_out.2 (by simp [h, -mem_map])
    have hqa : q ≠ a := fun h => ha_out.2 (by simp [h, -mem_map])
    refine ⟨(c.write p ⟨ep.1, ep.2, (lastAddr pre).or none, some q⟩).write q
        ⟨eq.1, eq.2, some p, (firstAddr post).or none⟩,
      by simp only [LRUCache.unlink, ha, setNext_eq hp, some_bind_eq,
        heap_write, if_neg hap, if_neg hqp, firstAddr_cons, Option.or_some, setPrev, hq],
      ⟨?_, ?_, ?_⟩,
      by simp [hap, Ne.symm hqa], fun x hx => ?_, rfl, rfl, rfl⟩
    · refine (chain_middle none none pre _ p ep).mpr
        ⟨hpre.frame fun x hx => ?_, by simp [Ne.symm hqp], by simp [hq, hqp],
          hpost.frame fun x hx => ?_⟩
      · have hxp : x ≠ p := fun h => hp_out.1 (h ▸ hx)
        have hxq : x ≠ q := fun h => hq_out.1 (by simp [← h, hx, -mem_map])
        simp [hxp, hxq]
      · have hxp : x ≠ p := fun h => hp_out.2 (by simp [← h, hx, -mem_map])
        have hxq : x ≠ q := fun h => hq_out.2 (h ▸ hx)
        simp [hxp, hxq]
    · simpa [firstAddr_append] using hc.head
    · simpa [lastAddr_append_cons, lastAddr_cons_of_ne_nil] using hc.tail
    · have hxp : x ≠ p := fun h => hx (by simp [h, -mem_map])
      have hxq : x ≠ q := fun h => hx (by simp [h, -mem_map])
      simp [hxp, hxq]

end Linked

/-! ## The layout of a cache -/

/-- What `cache_` holds for the cells: each cell's key with the address of its node. -/
def owners (cells : List (Nat × (K × V))) : List (Σ _ : K, Nat) :=
  cells.map fun x => ⟨x.2.1, x.1⟩

theorem keys_owners (cells : List (Nat × (K × V))) : (owners cells).keys = cells.map (·.2.1) := by
  simp [owners, keys]

theorem addrs_owners (cells : List (Nat × (K × V))) :
    (owners cells).map Sigma.snd = cells.map (·.1) := by
  simp [owners]

/-- A cache laid out as the cells: the list from `head_` to `tail_` links them, no address is
linked twice, every allocated node is one of them, every address was handed out by
`make_unique`, and `cache_` maps each cell's key to the cell's address. -/
structure Layout (c : LRUCache K V) (cells : List (Nat × (K × V))) extends Linked c cells :
    Prop where
  nodup : (cells.map (·.1)).Nodup
  owned : ∀ a, a ∉ cells.map (·.1) → c.heap a = none
  fresh : ∀ a ∈ cells.map (·.1), a < c.nextAddress
  cache : c.cache.entries ~ owners cells

section Layout

variable {c c' : LRUCache K V} {cells cells' : List (Nat × (K × V))}

theorem Layout.keys_nodup (hc : Layout c cells) : (cells.map (·.2.1)).Nodup :=
  keys_owners cells ▸ (hc.cache.map Sigma.fst).nodup_iff.mp c.cache.nodupKeys

theorem Layout.length_entries (hc : Layout c cells) : c.cache.entries.length = cells.length := by
  rw [hc.cache.length_eq, owners, length_map]

/-- A layout moves to a cache whose list holds the same owners in another order, when nothing
outside the list was written and neither `cache_` nor the allocator moved. -/
theorem Layout.transfer (hc : Layout c cells) (hl : Linked c' cells')
    (hp : owners cells' ~ owners cells) (hheap : ∀ x, x ∉ cells.map (·.1) → c'.heap x = c.heap x)
    (hcache : c'.cache = c.cache) (hnext : c'.nextAddress = c.nextAddress) : Layout c' cells' := by
  have haddr : cells'.map (·.1) ~ cells.map (·.1) := by
    rw [← addrs_owners, ← addrs_owners]
    exact hp.map _
  exact { hl with
    nodup := haddr.nodup_iff.mpr hc.nodup
    owned := fun a ha => by
      have ha' : a ∉ cells.map (·.1) := fun h => ha (haddr.mem_iff.mpr h)
      rw [hheap a ha', hc.owned a ha']
    fresh := fun a ha => hnext ▸ hc.fresh a (haddr.mem_iff.mp ha)
    cache := hcache ▸ hc.cache.trans hp.symm }

/-! ## One lemma per call -/

/-- `move_to_front` of a cell's node puts the cell first. -/
theorem Layout.moveToFront {pre post : List (Nat × (K × V))} {a : Nat} {e : K × V}
    (hc : Layout c (pre ++ (a, e) :: post)) :
    ∃ c', c.moveToFront a = some c' ∧ Layout c' ((a, e) :: (pre ++ post)) ∧
      c'.maxSize = c.maxSize := by
  cases pre with
  | nil => exact ⟨c, if_pos hc.head, hc, rfl⟩
  | cons x pre =>
    have hnd := hc.nodup
    obtain ⟨ha_out, hnd'⟩ := nodup_cons.mp ((perm_middle.map Prod.fst).nodup_iff.mp hnd)
    have hhead : c.head ≠ some a := by
      rw [hc.head]
      exact fun h => ha_out (by simp [← Option.some.inj h, -mem_map])
    have ha := ((chain_middle none none _ post a e).mp hc.chain).2.1
    obtain ⟨c₁, hu, hl₁, ha₁, hframe₁, hcache₁, hnext₁, hmax₁⟩ :=
      hc.toLinked.unlink (cons_ne_nil _ _) hnd
    obtain ⟨c', hf, hl', hframe', hcache', hnext', hmax'⟩ :=
      hl₁.linkFront (by simp) hnd' (ha₁.trans ha) ha_out
    refine ⟨c', by simp [LRUCache.moveToFront, hhead, hu, hf],
      hc.transfer hl' (perm_middle.map _).symm (fun y hy => ?_) (hcache'.trans hcache₁)
        (hnext'.trans hnext₁), hmax'.trans hmax₁⟩
    simp only [map_append, map_cons, mem_append, mem_cons, not_or] at hy
    have hy' : y ∉ (x :: pre ++ post).map (·.1) := by simp [hy.1, hy.2.2, -mem_map]
    exact (hframe' y hy.2.1 hy').trans (hframe₁ y hy')

/-- Writing a new value into a cell's node keeps the layout, with the new value in the cell. -/
theorem Layout.setValue {pre post : List (Nat × (K × V))} {a : Nat} {key : K} {v : V}
    (hc : Layout c (pre ++ (a, key, v) :: post)) {n : Node K V} (hn : c.heap a = some n)
    (value : V) :
    Layout (c.write a { n with value := value }) (pre ++ (a, key, value) :: post) := by
  obtain ⟨hpre, ha, hpost⟩ := (chain_middle none none pre post a (key, v)).mp hc.chain
  cases Option.some.inj (hn.symm.trans ha)
  have ha_out := nodup_middle _ _ (by simpa using hc.nodup)
  refine hc.transfer ⟨(chain_middle none none pre post a (key, value)).mpr
      ⟨hpre.frame fun x hx => ?_, by simp, hpost.frame fun x hx => ?_⟩,
      by simpa [firstAddr_append] using hc.head,
      by simpa [lastAddr_append_cons, lastAddr_cons] using hc.tail⟩
    (by simp [owners]) (fun x hx => ?_) rfl rfl
  · simp [show x ≠ a from fun h => ha_out.1 (h ▸ hx)]
  · simp [show x ≠ a from fun h => ha_out.2 (h ▸ hx)]
  · simp [show x ≠ a from fun h => hx (by simp [h, -mem_map])]

/-- `clear()` frees every node and leaves the empty list. -/
theorem Layout.clear (hc : Layout c cells) : Layout c.clear [] where
  chain := trivial
  head := rfl
  tail := rfl
  nodup := nodup_nil
  owned a _ := by
    simp only [LRUCache.clear, ite_eq_left_iff]
    intro ha
    refine hc.owned a fun h => ha ?_
    rw [← addrs_owners] at h
    exact (hc.cache.map Sigma.snd).mem_iff.mpr h
  fresh _ h := absurd h (not_mem_nil _)
  cache := by simp [LRUCache.clear, owners]

variable [DecidableEq K]

theorem Layout.lookup_eq_some (hc : Layout c cells) {key : K} {a : Nat} :
    c.cache.lookup key = some a ↔ ∃ v, (a, key, v) ∈ cells := by
  rw [← Option.mem_def, AList.mem_lookup_iff, hc.cache.mem_iff]
  simp only [owners, mem_map, Sigma.mk.inj_iff, heq_eq_eq, Prod.exists]
  constructor
  · rintro ⟨_, _, v, h, rfl, rfl⟩
    exact ⟨v, h⟩
  · rintro ⟨v, h⟩
    exact ⟨a, key, v, h, rfl, rfl⟩

theorem Layout.lookup_eq_none (hc : Layout c cells) {key : K} :
    c.cache.lookup key = none ↔ key ∉ cells.map (·.2.1) := by
  rw [AList.lookup_eq_none, AList.mem_keys, AList.keys, ← keys_owners]
  exact not_congr (hc.cache.map Sigma.fst).mem_iff

/-- `put` of a key the cache lacks links a fresh node in front and maps the key to it. -/
theorem Layout.insertFront (hc : Layout c cells) {key : K} (hkey : key ∉ cells.map (·.2.1))
    (value : V) :
    ∃ c', c.pushFront key value = some c' ∧
      Layout { c' with cache := c'.cache.insert key c.nextAddress }
        ((c.nextAddress, key, value) :: cells) ∧ c'.maxSize = c.maxSize := by
  have hfresh : c.nextAddress ∉ cells.map (·.1) := fun h => lt_irrefl _ (hc.fresh _ h)
  obtain ⟨c', hp, hl, hframe, hcache, hnext, hmax⟩ := hc.pushFront hc.nodup hfresh key value
  have hnot : key ∉ c'.cache := hcache ▸ AList.lookup_eq_none.mp (hc.lookup_eq_none.mpr hkey)
  refine ⟨c', hp, {
    toLinked := ⟨hl.chain, hl.head, hl.tail⟩
    nodup := nodup_cons.mpr ⟨hfresh, hc.nodup⟩
    owned := fun x hx => ?_
    fresh := fun x hx => ?_
    cache := ?_ }, hmax⟩
  · simp only [map_cons, mem_cons, not_or] at hx
    exact (hframe x hx.1 hx.2).trans (hc.owned x hx.2)
  · rcases mem_cons.mp hx with rfl | hx
    · exact hnext ▸ Nat.lt_succ_self _
    · exact hnext ▸ Nat.lt_succ_of_lt (hc.fresh x hx)
  · rw [AList.insert_entries_of_neg hnot, hcache]
    exact hc.cache.cons _

/-- `cache_.erase(key)` of a key the cache maps to `a`. -/
theorem erase_of_lookup {key : K} {a : Nat} (h : c.cache.lookup key = some a) :
    c.erase key = { c with cache := c.cache.erase key, heap := Function.update c.heap a none } := by
  simp [LRUCache.erase, h]

/-- The eviction at the end of `put`, on a list of two cells or more, drops the last cell. -/
theorem Layout.evict (hc : Layout c cells) (hlen : 2 ≤ cells.length) :
    ∃ c', c.evict = some c' ∧ Layout c' cells.dropLast ∧ c'.maxSize = c.maxSize := by
  obtain ⟨pre, ⟨p, ep⟩, ⟨t, et⟩, rfl⟩ := exists_eq_append_pair hlen
  have hdrop : (pre ++ [(p, ep), (t, et)]).dropLast = pre ++ [(p, ep)] := by
    rw [dropLast_append_cons]
    rfl
  have hsub : pre ++ [(p, ep)] <+ pre ++ [(p, ep), (t, et)] :=
    (sublist_append_left [(p, ep)] [(t, et)]).append_left pre
  obtain ⟨hpre, hp, ht, -⟩ := (chain_middle none none pre [(t, et)] p ep).mp hc.chain
  have hnd : (pre.map (·.1) ++ p :: [t]).Nodup := by simpa using hc.nodup
  have hp_out := nodup_middle _ _ hnd
  have ht_out := nodup_middle (pre.map (·.1) ++ [p]) [] (by simpa using hnd)
  have hpt : p ≠ t := fun h => hp_out.2 (by simp [h, -mem_map])
  have hkey_out := nodup_middle (pre.map (·.2.1) ++ [ep.1]) []
    (by simpa using hc.keys_nodup)
  have hlookup : c.cache.lookup et.1 = some t := hc.lookup_eq_some.mpr ⟨et.2, by simp⟩
  have htail : c.tail = some t := hc.tail.trans (by simp [lastAddr_append_cons])
  let c₁ := c.write p ⟨ep.1, ep.2, lastAddr pre, none⟩
  have hevict : c.evict = some { c₁.erase et.1 with tail := some p } := by
    simp [LRUCache.evict, htail, ht, setNext_eq hp, c₁]
  rw [erase_of_lookup (c := c₁) hlookup] at hevict
  have hout : ∀ x, x ≠ t → x ≠ p → Function.update c₁.heap t none x = c.heap x :=
    fun x hxt hxp => by simp [c₁, hxt, hxp]
  rw [hdrop]
  refine ⟨_, hevict, ⟨⟨?_, ?_, by simp [lastAddr_append]⟩, ?_, fun x hx => ?_, fun x hx => ?_, ?_⟩,
    rfl⟩
  · refine (chain_middle none none pre [] p ep).mpr ⟨hpre.frame fun x hx => ?_, ?_, trivial⟩
    · exact hout x (fun h => ht_out.1 (by simp [← h, hx, -mem_map])) (fun h => hp_out.1 (h ▸ hx))
    · simp [c₁, hpt]
  · simpa [firstAddr_append] using hc.head
  · exact hc.nodup.sublist (hsub.map _)
  · simp only [map_append, map_cons, map_nil, mem_append, mem_cons, not_mem_nil, or_false,
      not_or] at hx
    by_cases hxt : x = t
    · exact hxt ▸ Function.update_same _ _ _
    · refine (hout x hxt hx.2).trans (hc.owned x ?_)
      simp only [map_append, map_cons, map_nil, mem_append, mem_cons, not_mem_nil, or_false, not_or]
      exact ⟨hx.1, hx.2, hxt⟩
  · exact hc.fresh x ((hsub.map _).subset hx)
  · have howners : owners (pre ++ [(p, ep), (t, et)]) =
        owners (pre ++ [(p, ep)]) ++ [⟨et.1, t⟩] := by
      simp [owners]
    have hkeys : et.1 ∉ (owners (pre ++ [(p, ep)])).keys := by
      rw [keys_owners]
      simpa [-mem_map] using hkey_out.1
    refine (hc.cache.kerase c.cache.nodupKeys).trans ?_
    rw [howners, kerase_append_right hkeys]
    simp [kerase_cons_eq]

end Layout

/-! ## The model's entries, read off the cells -/

section Entries

variable [DecidableEq K] {pre post cells : List (Nat × (K × V))} {key : K}

theorem lookup_entries_of_not_mem (h : key ∉ cells.map (·.2.1)) :
    (cells.map (·.2)).lookup key = none := by
  rw [lookup_eq_none_iff]
  intro e he
  obtain ⟨x, hx, rfl⟩ := mem_map.mp he
  simpa using fun hk => h (mem_map.mpr ⟨x, hx, hk.symm⟩)

theorem filter_entries_of_not_mem (h : key ∉ cells.map (·.2.1)) :
    (cells.map (·.2)).filter (fun e => e.1 ≠ key) = cells.map (·.2) := by
  rw [filter_eq_self]
  intro e he
  obtain ⟨x, hx, rfl⟩ := mem_map.mp he
  simpa using fun hk => h (mem_map.mpr ⟨x, hx, hk⟩)

/-- Around a cell of the key, the model finds the cell's value and drops exactly that cell. -/
theorem lookup_filter_entries_middle {a : Nat} {v : V}
    (hnd : ((pre ++ (a, key, v) :: post).map (·.2.1)).Nodup) :
    ((pre ++ (a, key, v) :: post).map (·.2)).lookup key = some v ∧
      ((pre ++ (a, key, v) :: post).map (·.2)).filter (fun e => e.1 ≠ key) =
        (pre ++ post).map (·.2) := by
  have hk := nodup_middle _ _ (by simpa using hnd)
  constructor
  · rw [map_append, lookup_append, lookup_entries_of_not_mem hk.1, Option.none_or]
    simp
  · rw [map_append, filter_append, filter_entries_of_not_mem hk.1, map_cons, filter_cons,
      filter_entries_of_not_mem hk.2]
    simp

end Entries

/-! ## The refinement -/

/-- The cache represents the model: the same capacity, no more entries than the capacity, and a
layout whose cells hold the model's entries in order. -/
structure Represents (c : LRUCache K V) (m : LRUModel K V) : Prop where
  maxSize : c.maxSize = m.maxSize
  length_le : m.entries.length ≤ m.maxSize
  layout : ∃ cells, Layout c cells ∧ cells.map (·.2) = m.entries

section Represents

variable {c : LRUCache K V}

theorem Represents.new (maxSize : Nat) :
    Represents (LRUCache.new maxSize : LRUCache K V) (LRUModel.new maxSize) :=
  ⟨rfl, Nat.zero_le _, [], ⟨⟨trivial, rfl, rfl⟩, nodup_nil, fun _ _ => rfl,
    fun _ h => absurd h (not_mem_nil _), Perm.refl _⟩, rfl⟩

variable [DecidableEq K]

theorem Represents.get {m : LRUModel K V} (hr : Represents c m) (key : K) :
    ∃ c', c.get key = some ((m.get key).1, c') ∧ Represents c' (m.get key).2 := by
  obtain ⟨maxSize, entries⟩ := m
  obtain ⟨hmax, hlen, cells, hc, rfl⟩ := hr
  cases hl : c.cache.lookup key with
  | none =>
    have hm : LRUModel.get ⟨maxSize, cells.map (·.2)⟩ key = (none, ⟨maxSize, cells.map (·.2)⟩) := by
      simp [LRUModel.get, lookup_entries_of_not_mem (hc.lookup_eq_none.mp hl)]
    exact ⟨c, by simp [LRUCache.get, hl, hm], by rw [hm]; exact ⟨hmax, hlen, cells, hc, rfl⟩⟩
  | some a =>
    obtain ⟨v, hv⟩ := hc.lookup_eq_some.mp hl
    obtain ⟨pre, post, rfl⟩ := append_of_mem hv
    obtain ⟨hlookup, hfilter⟩ := lookup_filter_entries_middle hc.keys_nodup
    obtain ⟨c', hmf, hc', hmax'⟩ := hc.moveToFront
    have hm : LRUModel.get ⟨maxSize, (pre ++ (a, key, v) :: post).map (·.2)⟩ key =
        (some v, ⟨maxSize, ((a, key, v) :: (pre ++ post)).map (·.2)⟩) := by
      simp only [LRUModel.get, hlookup, hfilter, map_cons]
    rw [hm]
    exact ⟨c', by simp [LRUCache.get, hl, hmf, hc'.chain.1],
      hmax'.trans hmax, by simpa using hlen, _, hc', rfl⟩

theorem Represents.put {m : LRUModel K V} (hr : Represents c m) (hmax₁ : 1 ≤ m.maxSize) (key : K)
    (value : V) : ∃ c', c.put key value = some c' ∧ Represents c' (m.put key value) := by
  obtain ⟨maxSize, entries⟩ := m
  obtain ⟨hmax, hlen, cells, hc, rfl⟩ := hr
  change 1 ≤ maxSize at hmax₁
  change (cells.map (·.2)).length ≤ maxSize at hlen
  cases hl : c.cache.lookup key with
  | none =>
    have hkey := hc.lookup_eq_none.mp hl
    obtain ⟨c₁, hpush, hc₂, hmax₂⟩ := hc.insertFront hkey value
    have hlen₂ : (c₁.cache.insert key c.nextAddress).entries.length = cells.length + 1 :=
      hc₂.length_entries
    have hput : c.put key value = if maxSize < cells.length + 1
        then { c₁ with cache := c₁.cache.insert key c.nextAddress }.evict
        else some { c₁ with cache := c₁.cache.insert key c.nextAddress } := by
      simp only [LRUCache.put, hl, hpush, some_bind_eq, hlen₂, hmax₂, hmax]
    have hm : LRUModel.put ⟨maxSize, cells.map (·.2)⟩ key value = ⟨maxSize,
        if maxSize < cells.length + 1 then ((c.nextAddress, key, value) :: cells).dropLast.map (·.2)
        else ((c.nextAddress, key, value) :: cells).map (·.2)⟩ := by
      simp only [LRUModel.put, filter_entries_of_not_mem hkey]
      simp [map_dropLast]
    rw [hput, hm]
    by_cases hfull : maxSize < cells.length + 1
    · obtain ⟨c', hev, hc', hmax'⟩ := hc₂.evict (by simp; omega)
      rw [if_pos hfull, if_pos hfull]
      exact ⟨c', hev, hmax'.trans (hmax₂.trans hmax), by simpa using hlen, _, hc', rfl⟩
    · rw [if_neg hfull, if_neg hfull]
      exact ⟨_, rfl, hmax₂.trans hmax, by simp; omega, _, hc₂, rfl⟩
  | some a =>
    obtain ⟨v, hv⟩ := hc.lookup_eq_some.mp hl
    obtain ⟨pre, post, rfl⟩ := append_of_mem hv
    obtain ⟨-, hfilter⟩ := lookup_filter_entries_middle hc.keys_nodup
    obtain ⟨-, hn, -⟩ := (chain_middle none none pre post a (key, v)).mp hc.chain
    obtain ⟨c', hmf, hc', hmax'⟩ := (hc.setValue hn value).moveToFront
    have hfit : ¬ maxSize < ((key, value) :: (pre ++ post).map (·.2)).length := by
      simp at hlen ⊢
      omega
    have hm : LRUModel.put ⟨maxSize, (pre ++ (a, key, v) :: post).map (·.2)⟩ key value =
        ⟨maxSize, ((a, key, value) :: (pre ++ post)).map (·.2)⟩ := by
      simp only [LRUModel.put, hfilter, if_neg hfit, map_cons]
    rw [hm]
    refine ⟨c', ?_, hmax'.trans hmax, by simpa using hlen, _, hc', rfl⟩
    simp only [LRUCache.put, hl, hn, some_bind_eq]
    exact hmf

/-- Each call returns what the model returns and keeps the representation. -/
theorem Represents.apply {m : LRUModel K V} (hr : Represents c m) (hmax₁ : 1 ≤ m.maxSize)
    (op : CacheOp K V) :
    ∃ c', c.apply op = some ((m.apply op).1, c') ∧ Represents c' (m.apply op).2 := by
  cases op with
  | get key =>
    obtain ⟨c', h, hr'⟩ := hr.get key
    exact ⟨c', by simp [LRUCache.apply, LRUModel.apply, h], hr'⟩
  | put key value =>
    obtain ⟨c', h, hr'⟩ := hr.put hmax₁ key value
    exact ⟨c', by simp [LRUCache.apply, LRUModel.apply, h], hr'⟩
  | clear =>
    obtain ⟨hmax, -, cells, hc, -⟩ := hr
    exact ⟨c.clear, rfl, hmax, Nat.zero_le _, [], hc.clear, rfl⟩
  | size =>
    obtain ⟨cells, hc, hcells⟩ := hr.layout
    refine ⟨c, ?_, hr⟩
    simp [LRUCache.apply, LRUModel.apply, LRUCache.size, hc.length_entries, ← hcells]

/-- A run of calls returns what the model returns and keeps the representation. -/
theorem Represents.run {m : LRUModel K V} (hr : Represents c m) (hmax₁ : 1 ≤ m.maxSize)
    (ops : List (CacheOp K V)) :
    ∃ c', c.run ops = some ((m.run ops).1, c') ∧ Represents c' (m.run ops).2 := by
  induction ops generalizing c m with
  | nil => exact ⟨c, rfl, hr⟩
  | cons op ops ih =>
    obtain ⟨c₁, h₁, hr₁⟩ := hr.apply hmax₁ op
    obtain ⟨c', h', hr'⟩ := ih hr₁ ((m.maxSize_apply op).symm ▸ hmax₁)
    exact ⟨c', by simp [LRUCache.run, h₁, h', LRUModel.run], hr'⟩

/-- From a new cache of capacity at least one, every run of `get`, `put`, `clear` and `size`
returns the model's replies without undefined behaviour, and ends in a cache that represents the
model's state. -/
theorem run_refines_model (maxSize : Nat) (hmax : 1 ≤ maxSize) (ops : List (CacheOp K V)) :
    ∃ c, (LRUCache.new maxSize).run ops = some (((LRUModel.new maxSize).run ops).1, c) ∧
      Represents c ((LRUModel.new maxSize).run ops).2 :=
  (Represents.new maxSize).run hmax ops

/-- The capacity bound is needed: with `max_size` zero the first `put` evicts the node it has
just linked, whose `prev` is null, and `new_tail->next = nullptr` dereferences it. -/
theorem put_new_zero_undefined (key : K) (value : V) :
    (LRUCache.new 0 : LRUCache K V).put key value = none := rfl

theorem run_refines_model_capacity_one :
    1 ≤ 1 ∧ ∃ c, (LRUCache.new 1 : LRUCache Nat Nat).run
        [.put 1 10, .put 2 20, .get 1, .get 2, .size] =
        some (((LRUModel.new 1).run [.put 1 10, .put 2 20, .get 1, .get 2, .size]).1, c) ∧
      Represents c ((LRUModel.new 1).run [.put 1 10, .put 2 20, .get 1, .get 2, .size]).2 :=
  ⟨le_refl 1, run_refines_model 1 (le_refl 1) _⟩

end Represents

end LRUCache

end Utils

end FindataEngine
