import Mathlib.Data.List.Sort
import AmazeChain.Lib.AListBag
import AmazeChain.Lib.BinaryHeap
import AmazeChain.Txspool.Strict

/-!
# The three representations of a `txsSortedMap`

`txsSortedMap` (`internal/txspool/txs_list.go`) keeps the transactions of an account three times: a Go map from
nonces to transactions, a `container/heap` of the nonces (`nonceHeap`), and a cache of the transactions sorted by
nonce, `nil` until `flatten` fills it.  Every operation updates the three by hand: `Forward` pops the heap and
cuts the front of the cache, `Cap` sorts the heap and cuts its back, `Filter` rebuilds the heap, the others drop
the cache.  Here the map is an association list (its order of entries stands for the order `range` visits a Go
map, which is unspecified, and nothing below depends on it), the heap a `BinaryHeap.Slice`, and a panic of the
source (a slice cut out of range, the last element of an empty cache) is `none`.

The representation refines the abstract map of `Txspool/List.lean`, the list of transactions in increasing nonce
order: `Refines m a` says the map holds the transactions of `a` under their nonces, the heap holds their nonces
and the cache, if any, is `a` itself.  Every operation keeps it and returns what the abstract operation returns
(`put_refines` to `lastElement_refines`), so along any run of calls from `newTxSortedMap` the heap holds the
keys of the map in heap order and the cache is the sorted map (`run_refines`).
-/

namespace AmazeChain.Txspool

open BinaryHeap

variable {Addr Hash : Type}

/-- A Go map from nonces to transactions. -/
abbrev NonceMap (Addr Hash : Type) := AList fun _ : ℕ => Transaction Addr Hash

/-- `txsSortedMap`: the transactions by nonce, the heap of their nonces and the cache of the nonce order. -/
structure TxsSortedMapRep (Addr Hash : Type) where
  items : NonceMap Addr Hash
  index : Slice ℕ
  cache : Option (List (Transaction Addr Hash))

/-- The transactions of a map, in the order `range` visits them. -/
def mapTxs (items : NonceMap Addr Hash) : List (Transaction Addr Hash) :=
  items.bag fun _ tx => [tx]

/-- `sort.Sort(TxByNonce(...))`. -/
def sortByNonce (l : List (Transaction Addr Hash)) : List (Transaction Addr Hash) :=
  l.mergeSort fun a b => decide (a.nonce ≤ b.nonce)

namespace TxsSortedMapRep

/-- `newTxSortedMap`. -/
def newTxSortedMap : TxsSortedMapRep Addr Hash := ⟨∅, ⟨0, fun _ => 0⟩, none⟩

/-- `Get`. -/
def get (m : TxsSortedMapRep Addr Hash) (nonce : ℕ) : Option (Transaction Addr Hash) := m.items.lookup nonce

/-- `Put`: a nonce the map does not hold goes on the heap, and the cache is dropped. -/
def put (m : TxsSortedMapRep Addr Hash) (tx : Transaction Addr Hash) : TxsSortedMapRep Addr Hash :=
  let nonce := tx.nonce
  { items := m.items.insert nonce tx
    index := if (m.items.lookup nonce).isNone then BinaryHeap.push m.index nonce else m.index
    cache := none }

/-- The loop of `Forward`: pop the least nonce while it is below the threshold, collecting its transaction. -/
def forwardLoop (threshold : ℕ) (removed : List (Option (Transaction Addr Hash))) (items : NonceMap Addr Hash)
    (index : Slice ℕ) : List (Option (Transaction Addr Hash)) × NonceMap Addr Hash × Slice ℕ :=
  if _h : 0 < index.size ∧ index.get 0 < threshold then
    let nonce := (BinaryHeap.pop index).1
    forwardLoop threshold (removed ++ [items.lookup nonce]) (items.erase nonce) (BinaryHeap.pop index).2
  else (removed, items, index)
termination_by index.size
decreasing_by rw [pop_size]; omega

/-- `Forward`: remove the nonces below the threshold; a cached order loses as many transactions at its front. -/
def forward (m : TxsSortedMapRep Addr Hash) (threshold : ℕ) :
    Option (List (Option (Transaction Addr Hash)) × TxsSortedMapRep Addr Hash) :=
  let r := forwardLoop threshold [] m.items m.index
  match m.cache with
  | none => some (r.1, ⟨r.2.1, r.2.2, none⟩)
  | some cache =>
    -- `m.cache[len(removed):]` is out of range past the end of the cache
    if r.1.length ≤ cache.length then some (r.1, ⟨r.2.1, r.2.2, some (cache.drop r.1.length)⟩) else none

/-- The loop of the unexported `filter` over the map's entries: a transaction that passes the test is collected
and its nonce deleted. -/
def filterLoop (filter : Transaction Addr Hash → Bool) :
    List (Σ _ : ℕ, Transaction Addr Hash) → List (Transaction Addr Hash) × NonceMap Addr Hash →
      List (Transaction Addr Hash) × NonceMap Addr Hash
  | [], acc => acc
  | e :: es, (removed, items) =>
    filterLoop filter es (if filter e.2 then (removed ++ [e.2], items.erase e.1) else (removed, items))

/-- The unexported `filter`, which leaves the heap as it was. -/
def filterItems (m : TxsSortedMapRep Addr Hash) (filter : Transaction Addr Hash → Bool) :
    List (Transaction Addr Hash) × TxsSortedMapRep Addr Hash :=
  let r := filterLoop filter m.items.entries ([], m.items)
  (r.1, { m with items := r.2, cache := if 0 < r.1.length then none else m.cache })

/-- `reheap`: a heap made anew from the map's nonces, in the order `range` visits them. -/
def reheap (m : TxsSortedMapRep Addr Hash) : TxsSortedMapRep Addr Hash :=
  { m with index := BinaryHeap.init (Slice.ofList m.items.keys), cache := none }

/-- `Filter`. -/
def filter (m : TxsSortedMapRep Addr Hash) (filter : Transaction Addr Hash → Bool) :
    List (Transaction Addr Hash) × TxsSortedMapRep Addr Hash :=
  let r := m.filterItems filter
  (r.1, if 0 < r.1.length then r.2.reheap else r.2)

/-- The loop of `Cap` from `size` down: drop the transaction of the highest nonce left in the sorted index.  Below
a threshold under zero the loop reads the index at `-1`. -/
def capLoop (sorted : Slice ℕ) (threshold : ℤ) :
    ℕ → List (Option (Transaction Addr Hash)) → NonceMap Addr Hash →
      Option (List (Option (Transaction Addr Hash)) × NonceMap Addr Hash)
  | 0, drops, items => if threshold < 0 then none else some (drops, items)
  | size + 1, drops, items =>
    if threshold < size + 1 then
      -- `(*m.index)[size-1]` is out of range past the end of the index
      if size < sorted.size then
        capLoop sorted threshold size (drops ++ [items.lookup (sorted.get size)]) (items.erase (sorted.get size))
      else none
    else some (drops, items)

/-- `Cap`: sort the index, drop the transactions above the threshold and keep the heap of the rest. -/
def cap (m : TxsSortedMapRep Addr Hash) (threshold : ℤ) :
    Option (List (Option (Transaction Addr Hash)) × TxsSortedMapRep Addr Hash) :=
  if (m.items.entries.length : ℤ) ≤ threshold then some ([], m)
  else
    let sorted := Slice.ofList m.index.toList.mergeSort
    (capLoop sorted threshold m.items.entries.length [] m.items).bind fun r =>
      let index := BinaryHeap.init ⟨threshold.toNat, sorted.get⟩
      match m.cache with
      | none => some (r.1, ⟨r.2, index, none⟩)
      | some cache =>
        -- `m.cache[:len(m.cache)-len(drops)]`
        if r.1.length ≤ cache.length then
          some (r.1, ⟨r.2, index, some (cache.take (cache.length - r.1.length))⟩)
        else none

/-- `Remove`: the nonce's position in the heap is searched from the front. -/
def remove (m : TxsSortedMapRep Addr Hash) (nonce : ℕ) : Bool × TxsSortedMapRep Addr Hash :=
  match m.items.lookup nonce with
  | none => (false, m)
  | some _ =>
    let index :=
      match (List.range m.index.size).find? fun i => m.index.get i = nonce with
      | some i => (BinaryHeap.remove m.index i).2
      | none => m.index
    (true, ⟨m.items.erase nonce, index, none⟩)

/-- The loop of `Ready`: pop the least nonce while it is the next one, collecting its transaction. -/
def readyLoop (next : ℕ) (ready : List (Option (Transaction Addr Hash))) (items : NonceMap Addr Hash)
    (index : Slice ℕ) : List (Option (Transaction Addr Hash)) × NonceMap Addr Hash × Slice ℕ :=
  if _h : 0 < index.size ∧ index.get 0 = next then
    readyLoop (next + 1) (ready ++ [items.lookup next]) (items.erase next) (BinaryHeap.pop index).2
  else (ready, items, index)
termination_by index.size
decreasing_by rw [pop_size]; omega

/-- `Ready`: the run of consecutive nonces from the least one, if that is at most `start`. -/
def ready (m : TxsSortedMapRep Addr Hash) (start : ℕ) :
    List (Option (Transaction Addr Hash)) × TxsSortedMapRep Addr Hash :=
  if m.index.size = 0 ∨ start < m.index.get 0 then ([], m)
  else
    let r := readyLoop (m.index.get 0) [] m.items m.index
    (r.1, ⟨r.2.1, r.2.2, none⟩)

/-- `Len`. -/
def len (m : TxsSortedMapRep Addr Hash) : ℕ := m.items.entries.length

/-- The unexported `flatten`: the cache, sorted from the map's transactions when there is none. -/
def flattenCache (m : TxsSortedMapRep Addr Hash) : List (Transaction Addr Hash) × TxsSortedMapRep Addr Hash :=
  match m.cache with
  | some cache => (cache, m)
  | none =>
    let cache := sortByNonce (mapTxs m.items)
    (cache, { m with cache := some cache })

/-- `Flatten`: a copy of the cache, which is the same list. -/
def flatten (m : TxsSortedMapRep Addr Hash) : List (Transaction Addr Hash) × TxsSortedMapRep Addr Hash :=
  m.flattenCache

/-- `LastElement`: the last transaction of the cache; an empty cache is read at `-1`. -/
def lastElement (m : TxsSortedMapRep Addr Hash) : Option (Transaction Addr Hash × TxsSortedMapRep Addr Hash) :=
  let r := m.flattenCache
  r.1.getLast?.map fun tx => (tx, r.2)

/-- A call on the map. -/
inductive Call (Addr Hash : Type)
  | put (tx : Transaction Addr Hash)
  | forward (threshold : ℕ)
  | filter (filter : Transaction Addr Hash → Bool)
  | cap (threshold : ℤ)
  | remove (nonce : ℕ)
  | ready (start : ℕ)
  | flatten
  | lastElement

/-- The map after a call, `none` if the call panics. -/
def step (m : TxsSortedMapRep Addr Hash) : Call Addr Hash → Option (TxsSortedMapRep Addr Hash)
  | .put tx => some (m.put tx)
  | .forward threshold => (m.forward threshold).map Prod.snd
  | .filter f => some (m.filter f).2
  | .cap threshold => (m.cap threshold).map Prod.snd
  | .remove nonce => some (m.remove nonce).2
  | .ready start => some (m.ready start).2
  | .flatten => some m.flatten.2
  | .lastElement => m.lastElement.map Prod.snd

/-- A run of calls, `none` if one of them panics. -/
def run (m : TxsSortedMapRep Addr Hash) : List (Call Addr Hash) → Option (TxsSortedMapRep Addr Hash)
  | [] => some m
  | c :: cs => (m.step c).bind fun m' => m'.run cs

end TxsSortedMapRep

/-! ### Lists in nonce order -/

section NonceOrder

variable {L : List (Transaction Addr Hash)}

/-- The transactions of a nonce-sorted list below a nonce come first. -/
theorem filter_lt_append_filter (hs : L.Pairwise fun a b => a.nonce < b.nonce) (t : ℕ) :
    L.filter (fun tx => tx.nonce < t) ++ L.filter (fun tx => !(tx.nonce < t)) = L := by
  induction L with
  | nil => rfl
  | cons x L ih =>
    rw [List.pairwise_cons] at hs
    by_cases hx : x.nonce < t
    · simp [hx, ih hs.2]
    · -- everything after `x` is above it, so at least `t`
      have hall : ∀ y ∈ x :: L, ¬ y.nonce < t := by
        intro y hy
        rcases List.mem_cons.1 hy with rfl | hy
        · exact hx
        · have := hs.1 y hy
          omega
      rw [List.filter_eq_nil_iff.2 (by simpa using hall), List.filter_eq_self.2 (by simpa using hall)]
      rfl

theorem filter_ne_head {x : Transaction Addr Hash} (hs : (x :: L).Pairwise fun a b => a.nonce < b.nonce) :
    (x :: L).filter (fun tx => tx.nonce ≠ x.nonce) = L := by
  rw [List.pairwise_cons] at hs
  rw [List.filter_cons_of_neg (by simp), List.filter_eq_self.2]
  intro y hy
  have := hs.1 y hy
  simp only [ne_eq, decide_eq_true_eq]
  omega

theorem filter_ne_last {x : Transaction Addr Hash} (hs : (L ++ [x]).Pairwise fun a b => a.nonce < b.nonce) :
    (L ++ [x]).filter (fun tx => tx.nonce ≠ x.nonce) = L := by
  rw [List.pairwise_append] at hs
  rw [List.filter_append, List.filter_singleton, List.filter_eq_self.2]
  · simp
  intro y hy
  have := hs.2.2 y hy x (List.mem_singleton_self x)
  simp only [ne_eq, decide_eq_true_eq]
  omega

/-- Sorting by a key leaves the keys in increasing order. -/
theorem pairwise_mergeSort_key {α : Type} (f : α → ℕ) (l : List α) :
    (l.mergeSort fun a b => decide (f a ≤ f b)).Pairwise fun a b => f a ≤ f b := by
  refine (List.pairwise_mergeSort (fun a b c hab hbc => ?_) (fun a b => ?_) _).imp fun hab => ?_
  · simp only [decide_eq_true_eq] at hab hbc ⊢
    omega
  · simp only [Bool.or_eq_true, decide_eq_true_eq]
    omega
  · simpa using hab

end NonceOrder

/-! ### The map -/

section NonceMap

variable {items : NonceMap Addr Hash} {n : ℕ} {x : Transaction Addr Hash}

theorem mapTxs_insert (items : NonceMap Addr Hash) (n : ℕ) (tx : Transaction Addr Hash) :
    mapTxs (items.insert n tx) = tx :: mapTxs (items.erase n) :=
  AList.bag_insert _ items n tx

theorem perm_mapTxs_erase (h : items.lookup n = some x) : (mapTxs items).Perm (x :: mapTxs (items.erase n)) :=
  AList.perm_bag_erase _ h

theorem mem_mapTxs : x ∈ mapTxs items ↔ ∃ n, items.lookup n = some x := by
  simp [mapTxs, AList.mem_bag]

theorem mapTxs_eq_map (items : NonceMap Addr Hash) : mapTxs items = items.entries.map Sigma.snd :=
  List.map_eq_flatMap.symm

end NonceMap

/-! ### The map holds an abstract list -/

/-- The map holds the transactions of `L`, a list in increasing nonce order, each under its nonce. -/
structure Holds (items : NonceMap Addr Hash) (L : List (Transaction Addr Hash)) : Prop where
  sorted : L.Pairwise fun a b => a.nonce < b.nonce
  txs_perm : (mapTxs items).Perm L
  nonce_eq : ∀ n tx, items.lookup n = some tx → tx.nonce = n

namespace Holds

variable {items : NonceMap Addr Hash} {L : List (Transaction Addr Hash)} {n : ℕ} {x : Transaction Addr Hash}

theorem lookup_eq_some_iff (h : Holds items L) : items.lookup n = some x ↔ x ∈ L ∧ x.nonce = n := by
  constructor
  · intro hx
    exact ⟨h.txs_perm.subset (mem_mapTxs.2 ⟨n, hx⟩), h.nonce_eq n x hx⟩
  · rintro ⟨hx, rfl⟩
    obtain ⟨k, hk⟩ := mem_mapTxs.1 (h.txs_perm.symm.subset hx)
    rwa [← h.nonce_eq k x hk] at hk

theorem lookup_of_mem (h : Holds items L) (hx : x ∈ L) : items.lookup x.nonce = some x :=
  h.lookup_eq_some_iff.2 ⟨hx, rfl⟩

theorem keys_eq (h : Holds items L) : items.keys = (mapTxs items).map Transaction.nonce := by
  rw [mapTxs_eq_map, List.map_map]
  refine List.map_congr_left fun e he => ?_
  exact (h.nonce_eq e.1 e.2 (AList.mem_lookup_iff.2 he)).symm

theorem keys_perm (h : Holds items L) : items.keys.Perm (L.map Transaction.nonce) := by
  rw [h.keys_eq]
  exact h.txs_perm.map _

theorem length_entries (h : Holds items L) : items.entries.length = L.length := by
  rw [← h.txs_perm.length_eq, mapTxs_eq_map, List.length_map]

/-- Deleting a nonce deletes its transaction from the list. -/
theorem erase (h : Holds items L) (n : ℕ) : Holds (items.erase n) (L.filter fun tx => tx.nonce ≠ n) := by
  refine ⟨h.sorted.sublist List.filter_sublist, ?_, ?_⟩
  · cases hn : items.lookup n with
    | none =>
      -- no transaction of the list has the nonce
      rw [AList.erase_of_lookup_eq_none hn, List.filter_eq_self.2]
      · exact h.txs_perm
      intro y hy
      have : items.lookup y.nonce = some y := h.lookup_of_mem hy
      simp only [ne_eq, decide_eq_true_eq]
      rintro rfl
      rw [hn] at this
      cases this
    | some x =>
      have hx := (h.lookup_eq_some_iff.1 hn).2
      -- what is left under the other nonces has other nonces
      have hrest : ∀ y ∈ mapTxs (items.erase n), y.nonce ≠ n := by
        intro y hy
        obtain ⟨k, hk⟩ := mem_mapTxs.1 hy
        obtain ⟨hkn, hk⟩ := AList.lookup_erase_eq_some.1 hk
        rw [h.nonce_eq k y hk]
        exact hkn
      have hperm := (perm_mapTxs_erase hn).symm.trans h.txs_perm
      have := hperm.filter fun tx => decide (tx.nonce ≠ n)
      rw [List.filter_cons_of_neg (by simpa using hx), List.filter_eq_self.2 (by simpa using hrest)] at this
      exact this
  · intro k tx hk
    exact h.nonce_eq k tx (AList.lookup_erase_eq_some.1 hk).2

/-- Writing a transaction under its nonce inserts it in the list in place of the one of its nonce. -/
theorem insert (h : Holds items L) (tx : Transaction Addr Hash) :
    Holds (items.insert tx.nonce tx) (TxsSortedMap.insertByNonce tx L) := by
  refine ⟨TxsSortedMap.pairwise_insertByNonce tx h.sorted, ?_, ?_⟩
  · rw [mapTxs_insert]
    exact (((h.erase tx.nonce).txs_perm).cons tx).trans (TxsSortedMap.insertByNonce_perm tx h.sorted).symm
  · intro k y hk
    rcases eq_or_ne k tx.nonce with rfl | hkn
    · rw [AList.lookup_insert] at hk
      cases hk
      rfl
    · rw [AList.lookup_insert_ne hkn] at hk
      exact h.nonce_eq k y hk

end Holds

/-! ### The heap holds the nonces -/

/-- The map holds the transactions of `L` and the heap holds their nonces in heap order. -/
structure Indexed (items : NonceMap Addr Hash) (index : Slice ℕ) (L : List (Transaction Addr Hash)) : Prop
    extends Holds items L where
  index_perm : index.toList.Perm items.keys
  heap : index.IsHeap

/-- What is left of the heap after one nonce is taken out holds the keys of the map without it. -/
theorem perm_keys_erase {items : NonceMap Addr Hash} {index index' : Slice ℕ} {n : ℕ}
    (hperm : (index'.toList ++ [n]).Perm index.toList) (hkeys : index.toList.Perm items.keys) :
    index'.toList.Perm (items.erase n).keys := by
  rw [AList.keys_erase]
  have := ((List.perm_append_singleton n _).symm.trans (hperm.trans hkeys)).erase n
  rwa [List.erase_cons_head] at this

namespace Indexed

variable {items : NonceMap Addr Hash} {index : Slice ℕ} {L : List (Transaction Addr Hash)}
  {x : Transaction Addr Hash}

theorem perm_nonces (h : Indexed items index L) : index.toList.Perm (L.map Transaction.nonce) :=
  h.index_perm.trans h.keys_perm

theorem size_eq (h : Indexed items index L) : index.size = L.length := by
  rw [← Slice.length_toList, h.perm_nonces.length_eq, List.length_map]

theorem size_pos (h : Indexed items index (x :: L)) : 0 < index.size := by
  rw [h.size_eq]
  exact Nat.succ_pos _

/-- The root of the heap is the nonce of the first transaction. -/
theorem get_zero (h : Indexed items index (x :: L)) : index.get 0 = x.nonce := by
  have hle : index.get 0 ≤ x.nonce :=
    h.heap.get_zero_le (h.perm_nonces.symm.subset (List.mem_map_of_mem List.mem_cons_self))
  -- the root is the nonce of some transaction, none of which is below the first
  obtain ⟨y, hy, hyn⟩ := List.mem_map.1 (h.perm_nonces.subset (Slice.mem_toList.2 ⟨0, h.size_pos, rfl⟩))
  have hge : x.nonce ≤ y.nonce := by
    rcases List.mem_cons.1 hy with rfl | hy
    · exact Nat.le_refl _
    · exact Nat.le_of_lt (List.rel_of_pairwise_cons h.sorted hy)
  omega

theorem pop (h : Indexed items index (x :: L)) :
    (BinaryHeap.pop index).1 = x.nonce ∧ Indexed (items.erase x.nonce) (BinaryHeap.pop index).2 L := by
  obtain ⟨hroot, hheap, hperm⟩ := pop_spec h.heap h.size_pos
  rw [hroot, h.get_zero] at hperm ⊢
  have hholds := h.toHolds.erase x.nonce
  rw [filter_ne_head h.sorted] at hholds
  exact ⟨rfl, hholds, perm_keys_erase hperm h.index_perm, hheap⟩

theorem remove (h : Indexed items index L) {i n : ℕ} (hi : i < index.size) (hget : index.get i = n) :
    Indexed (items.erase n) (BinaryHeap.remove index i).2 (L.filter fun tx => tx.nonce ≠ n) := by
  obtain ⟨hval, hheap, hperm⟩ := remove_spec h.heap hi
  rw [hval, hget] at hperm
  exact ⟨h.toHolds.erase n, perm_keys_erase hperm h.index_perm, hheap⟩

end Indexed

/-! ### The loops -/

namespace TxsSortedMapRep

theorem forwardLoop_spec (threshold : ℕ) (removed : List (Option (Transaction Addr Hash)))
    (items : NonceMap Addr Hash) (index : Slice ℕ) :
    ∀ {L : List (Transaction Addr Hash)}, Indexed items index L → ∃ items' index',
      forwardLoop threshold removed items index =
          (removed ++ (L.filter fun tx => tx.nonce < threshold).map some, items', index') ∧
        Indexed items' index' (L.filter fun tx => !(tx.nonce < threshold)) := by
  fun_induction forwardLoop threshold removed items index with
  | case1 removed items index hgo nonce =>
    rename_i ih
    intro L hL
    cases L with
    | nil => exact absurd hgo.1 (by rw [hL.size_eq]; exact Nat.lt_irrefl 0)
    | cons x L =>
      -- the root is the first transaction, below the threshold
      have hx : x.nonce < threshold := hL.get_zero ▸ hgo.2
      obtain ⟨hroot, hpop⟩ := hL.pop
      have hn : nonce = x.nonce := hroot
      rw [hn] at ih ⊢
      obtain ⟨items', index', hrun, hL'⟩ := ih hpop
      refine ⟨items', index', ?_, ?_⟩
      · rw [hrun, hL.lookup_of_mem List.mem_cons_self,
          List.filter_cons_of_pos (by simpa using hx)]
        simp
      · rwa [List.filter_cons_of_neg (by simpa using hx)]
  | case2 removed items index hstop =>
    intro L hL
    -- the first transaction is at the threshold or above, so all of them are
    have hall : ∀ y ∈ L, ¬ y.nonce < threshold := by
      intro y hy
      cases L with
      | nil => cases hy
      | cons x L =>
        have hx : ¬ x.nonce < threshold := fun hx =>
          hstop ⟨hL.size_pos, hL.get_zero ▸ hx⟩
        rcases List.mem_cons.1 hy with rfl | hy
        · exact hx
        · have := List.rel_of_pairwise_cons hL.sorted hy
          omega
    refine ⟨items, index, ?_, ?_⟩
    · rw [List.filter_eq_nil_iff.2 (by simpa using hall)]
      simp
    · rwa [List.filter_eq_self.2 (by simpa using hall)]

theorem readyLoop_spec (next : ℕ) (ready : List (Option (Transaction Addr Hash))) (items : NonceMap Addr Hash)
    (index : Slice ℕ) :
    ∀ {L : List (Transaction Addr Hash)}, Indexed items index L → ∃ items' index',
      readyLoop next ready items index = (ready ++ (TxsSortedMap.run next L).1.map some, items', index') ∧
        Indexed items' index' (TxsSortedMap.run next L).2 := by
  fun_induction readyLoop next ready items index with
  | case1 next ready items index hgo ih =>
    intro L hL
    cases L with
    | nil => exact absurd hgo.1 (by rw [hL.size_eq]; exact Nat.lt_irrefl 0)
    | cons x L =>
      -- the root is the first transaction, of the next nonce
      have hx : x.nonce = next := hL.get_zero ▸ hgo.2
      obtain ⟨-, hpop⟩ := hL.pop
      rw [hx] at hpop
      obtain ⟨items', index', hrun, hL'⟩ := ih hpop
      have hstep : TxsSortedMap.run next (x :: L) =
          ((TxsSortedMap.run (next + 1) L).1.cons x, (TxsSortedMap.run (next + 1) L).2) := by
        rw [TxsSortedMap.run, if_pos hx]
      refine ⟨items', index', ?_, ?_⟩
      · rw [hrun, hstep, ← hx, hL.lookup_of_mem List.mem_cons_self]
        simp
      · rwa [hstep]
  | case2 next ready items index hstop =>
    intro L hL
    cases L with
    | nil => exact ⟨items, index, by simp [TxsSortedMap.run], hL⟩
    | cons x L =>
      -- the root is not the next nonce: the run is empty
      have hx : x.nonce ≠ next := fun hx =>
        hstop ⟨hL.size_pos, hL.get_zero ▸ hx⟩
      have hstep : TxsSortedMap.run next (x :: L) = ([], x :: L) := by
        rw [TxsSortedMap.run, if_neg hx]
      exact ⟨items, index, by simp [hstep], by rwa [hstep]⟩

/-- `Cap`'s loop over a sorted index that lists the nonces of `L`: from `size` down to the threshold it drops
the transactions of `L` in that range, highest first. -/
theorem capLoop_spec {L : List (Transaction Addr Hash)} {sorted : Slice ℕ} (hsize : sorted.size = L.length)
    (hget : ∀ i (hi : i < L.length), sorted.get i = L[i].nonce) (k : ℕ) :
    ∀ (size : ℕ) (drops : List (Option (Transaction Addr Hash))) (items : NonceMap Addr Hash),
      k ≤ size → size ≤ L.length → Holds items (L.take size) → ∃ items',
        capLoop sorted k size drops items = some (drops ++ ((L.take size).drop k).reverse.map some, items') ∧
          Holds items' (L.take k)
  | 0, drops, items, hk, _, h => by
    obtain rfl : k = 0 := by omega
    exact ⟨items, by simp [capLoop], h⟩
  | size + 1, drops, items, hk, hlen, h => by
    rcases Nat.eq_or_lt_of_le hk with rfl | hk
    · -- nothing is above the threshold any more
      exact ⟨items, by simp [capLoop], h⟩
    · -- the transaction at `size` is the highest one left
      have hs : size < L.length := by omega
      have htake := List.take_succ_eq_append_getElem hs
      have hmem : L[size] ∈ L.take (size + 1) := by
        rw [htake]
        exact List.mem_append_right _ (List.mem_singleton_self _)
      have hlookup : items.lookup L[size].nonce = some L[size] := h.lookup_of_mem hmem
      have hrest := h.erase L[size].nonce
      rw [htake, filter_ne_last (htake ▸ h.sorted)] at hrest
      obtain ⟨items', hrun, h'⟩ :=
        capLoop_spec hsize hget k size (drops ++ [some L[size]]) _ (by omega) (by omega) hrest
      refine ⟨items', ?_, h'⟩
      rw [capLoop, if_pos (by omega), if_pos (by omega), hget size hs, hlookup, hrun, htake,
        List.drop_append_of_le_length (by simp; omega)]
      simp

/-- Below a threshold under zero, `Cap`'s loop always reads the index out of range. -/
theorem capLoop_of_neg {sorted : Slice ℕ} {threshold : ℤ} (hneg : threshold < 0) :
    ∀ (size : ℕ) (drops : List (Option (Transaction Addr Hash))) (items : NonceMap Addr Hash),
      capLoop sorted threshold size drops items = none
  | 0, _, _ => by simp [capLoop, hneg]
  | size + 1, drops, items => by
    rw [capLoop, if_pos (by omega)]
    split
    · exact capLoop_of_neg hneg size _ _
    · rfl

/-- The loop of `filter` over entries of the map: it collects the transactions that pass, and what it leaves is
the map without them. -/
theorem filterLoop_spec (f : Transaction Addr Hash → Bool) :
    ∀ (es : List (Σ _ : ℕ, Transaction Addr Hash)) (removed : List (Transaction Addr Hash))
      (items : NonceMap Addr Hash), (∀ e ∈ es, items.lookup e.1 = some e.2) → (es.map Sigma.fst).Nodup →
      (filterLoop f es (removed, items)).1 = removed ++ (es.map Sigma.snd).filter f ∧
        (mapTxs (filterLoop f es (removed, items)).2 ++ (es.map Sigma.snd).filter f).Perm (mapTxs items) ∧
        ∀ n tx, (filterLoop f es (removed, items)).2.lookup n = some tx → items.lookup n = some tx
  | [], removed, items, _, _ => by simp [filterLoop]
  | e :: es, removed, items, hes, hnd => by
    rw [List.map_cons, List.nodup_cons] at hnd
    by_cases hf : f e.2
    · -- the entry is collected and its nonce deleted; the later entries have other nonces
      have hes' : ∀ e' ∈ es, (items.erase e.1).lookup e'.1 = some e'.2 := by
        intro e' he'
        have hne : e'.1 ≠ e.1 := fun h => hnd.1 (h ▸ List.mem_map_of_mem he')
        rw [AList.lookup_erase_ne hne]
        exact hes e' (List.mem_cons_of_mem _ he')
      obtain ⟨h1, h2, h3⟩ := filterLoop_spec f es (removed ++ [e.2]) (items.erase e.1) hes' hnd.2
      simp only [filterLoop, if_pos hf, List.map_cons, List.filter_cons_of_pos hf]
      refine ⟨by rw [h1]; simp, ?_, ?_⟩
      · exact List.perm_middle.trans ((h2.cons _).trans (perm_mapTxs_erase (hes e List.mem_cons_self)).symm)
      · intro n tx hn
        exact (AList.lookup_erase_eq_some.1 (h3 n tx hn)).2
    · obtain ⟨h1, h2, h3⟩ :=
        filterLoop_spec f es removed items (fun e' he' => hes e' (List.mem_cons_of_mem _ he')) hnd.2
      simp only [filterLoop, if_neg hf, List.map_cons, List.filter_cons_of_neg hf]
      exact ⟨h1, h2, h3⟩

theorem filterLoop_of_forall_false (f : Transaction Addr Hash → Bool) :
    ∀ (es : List (Σ _ : ℕ, Transaction Addr Hash)) (removed : List (Transaction Addr Hash))
      (items : NonceMap Addr Hash), (∀ e ∈ es, f e.2 = false) → filterLoop f es (removed, items) = (removed, items)
  | [], _, _, _ => rfl
  | e :: es, removed, items, hes => by
    rw [filterLoop, if_neg (by simp [hes e List.mem_cons_self])]
    exact filterLoop_of_forall_false f es removed items fun e' he' => hes e' (List.mem_cons_of_mem _ he')

end TxsSortedMapRep

/-! ### Sorting -/

/-- Sorting the map's transactions by nonce gives the list it holds. -/
theorem Holds.sortByNonce_eq {items : NonceMap Addr Hash} {L : List (Transaction Addr Hash)} (h : Holds items L) :
    sortByNonce (mapTxs items) = L := by
  have hperm : (sortByNonce (mapTxs items)).Perm L := (List.mergeSort_perm _ _).trans h.txs_perm
  have hsorted : (sortByNonce (mapTxs items)).Pairwise fun a b => a.nonce ≤ b.nonce :=
    pairwise_mergeSort_key Transaction.nonce _
  refine List.Perm.eq_of_pairwise (fun a b ha hb hab hba => ?_) hsorted (h.sorted.imp Nat.le_of_lt) hperm
  -- two transactions of `L` of one nonce are one
  exact TxsSortedMap.eq_of_nonce_eq h.sorted (hperm.subset ha) hb (Nat.le_antisymm hab hba)

/-- Sorting the heap gives the nonces of the list in order. -/
theorem Indexed.mergeSort_eq {items : NonceMap Addr Hash} {index : Slice ℕ} {L : List (Transaction Addr Hash)}
    (h : Indexed items index L) : index.toList.mergeSort = L.map Transaction.nonce := by
  have hperm := (List.mergeSort_perm index.toList fun a b => decide (a ≤ b)).trans h.perm_nonces
  have hsorted : index.toList.mergeSort.Pairwise fun a b => a ≤ b := pairwise_mergeSort_key id _
  exact List.Perm.eq_of_pairwise (fun a b _ _ hab hba => Nat.le_antisymm hab hba) hsorted
    (List.pairwise_map.2 (h.sorted.imp Nat.le_of_lt)) hperm

/-! ### Each operation refines the abstract one -/

namespace TxsSortedMapRep

/-- The map, the heap and the cache all hold the abstract map `a`. -/
structure Refines (m : TxsSortedMapRep Addr Hash) (a : TxsSortedMap Addr Hash) : Prop where
  indexed : Indexed m.items m.index a.items
  cache_eq : ∀ cache, m.cache = some cache → cache = a.items

/-- The representation invariant: the heap holds every key of the map once and in heap order, every
transaction is under its nonce, and the cache, if any, is the map's transactions sorted by nonce. -/
structure Inv (m : TxsSortedMapRep Addr Hash) : Prop where
  index_perm : m.index.toList.Perm m.items.keys
  index_nodup : m.index.toList.Nodup
  heap : m.index.IsHeap
  nonce_eq : ∀ n tx, m.items.lookup n = some tx → tx.nonce = n
  cache_eq : ∀ cache, m.cache = some cache → cache = sortByNonce (mapTxs m.items)

variable {m : TxsSortedMapRep Addr Hash} {a b : TxsSortedMap Addr Hash}

theorem Refines.inv (h : m.Refines a) : m.Inv where
  index_perm := h.indexed.index_perm
  index_nodup := h.indexed.index_perm.nodup_iff.2 m.items.keys_nodup
  heap := h.indexed.heap
  nonce_eq := h.indexed.nonce_eq
  cache_eq := fun cache hc => (h.cache_eq cache hc).trans h.indexed.sortByNonce_eq.symm

theorem Refines.of_items_eq (h : m.Refines a) (he : a.items = b.items) : m.Refines b :=
  ⟨he ▸ h.indexed, he ▸ h.cache_eq⟩

theorem newTxSortedMap_refines : (newTxSortedMap : TxsSortedMapRep Addr Hash).Refines TxsSortedMap.empty := by
  refine ⟨⟨⟨List.Pairwise.nil, by simp [mapTxs, newTxSortedMap, TxsSortedMap.empty], ?_⟩, ?_, ?_⟩, ?_⟩
  · intro n tx hn
    simp [newTxSortedMap, AList.lookup_empty] at hn
  · simp [newTxSortedMap, Slice.toList, AList.keys_empty]
  · intro c hc hcn
    simp [newTxSortedMap] at hcn
  · intro c hc
    simp [newTxSortedMap] at hc

theorem put_refines (h : m.Refines a) (tx : Transaction Addr Hash) : (m.put tx).Refines (a.put tx) := by
  refine ⟨⟨h.indexed.toHolds.insert tx, ?_, ?_⟩, fun _ hc => by cases hc⟩
  · -- the keys gain the nonce, which goes on the heap if it is new
    simp only [put, AList.keys_insert]
    cases hn : m.items.lookup tx.nonce with
    | none =>
      have hnot : tx.nonce ∉ m.items.keys := fun hk => AList.lookup_eq_none.1 hn (AList.mem_keys.2 hk)
      rw [List.erase_of_not_mem hnot, Option.isNone_none, if_pos rfl]
      exact (push_perm _ _).trans ((h.indexed.index_perm.append_right _).trans (List.perm_append_singleton _ _))
    | some old =>
      have hmem : tx.nonce ∈ m.items.keys := AList.mem_keys.1 (AList.lookup_isSome.1 (by rw [hn]; rfl))
      rw [Option.isNone_some, if_neg Bool.false_ne_true]
      exact h.indexed.index_perm.trans (List.perm_cons_erase hmem)
  · simp only [put]
    split
    · exact push_isHeap h.indexed.heap _
    · exact h.indexed.heap

theorem forward_refines (h : m.Refines a) (threshold : ℕ) : ∃ m',
    m.forward threshold = some ((a.forward threshold).1.map some, m') ∧ m'.Refines (a.forward threshold).2 := by
  obtain ⟨items', index', hrun, h'⟩ := forwardLoop_spec threshold [] m.items m.index h.indexed
  unfold forward
  rw [hrun, List.nil_append]
  cases hc : m.cache with
  | none => exact ⟨_, rfl, h', fun _ hc' => by cases hc'⟩
  | some cache =>
    have hcache := h.cache_eq cache hc
    -- the cache loses the transactions below the threshold, which come first
    have hdrop : (a.items.filter fun tx => tx.nonce < threshold).length ≤ a.items.length :=
      List.length_filter_le _ _
    have hrest : ((a.items.filter fun tx => tx.nonce < threshold) ++
        a.items.filter fun tx => !(tx.nonce < threshold)).drop (a.items.filter fun tx => tx.nonce < threshold).length =
          a.items.filter fun tx => !(tx.nonce < threshold) :=
      List.drop_left' rfl
    rw [filter_lt_append_filter a.sorted threshold] at hrest
    refine ⟨⟨items', index', some (a.forward threshold).2.items⟩, ?_, h', fun c hc' => ?_⟩
    · dsimp only
      rw [List.length_map, hcache, if_pos hdrop, hrest]
      rfl
    · cases hc'
      rfl

/-- A threshold under zero makes `Cap` read the index out of range, whatever the map holds. -/
theorem cap_of_neg (m : TxsSortedMapRep Addr Hash) {threshold : ℤ} (hneg : threshold < 0) :
    m.cap threshold = none := by
  unfold cap
  rw [if_neg (by omega)]
  dsimp only
  rw [capLoop_of_neg hneg]
  rfl

theorem cap_refines (h : m.Refines a) (k : ℕ) :
    ∃ m', m.cap k = some ((a.cap k).1.map some, m') ∧ m'.Refines (a.cap k).2 := by
  have hlen := h.indexed.length_entries
  unfold cap TxsSortedMap.cap
  by_cases hk : a.items.length ≤ k
  · rw [if_pos (by rw [hlen]; exact_mod_cast hk), if_pos hk]
    exact ⟨m, rfl, h⟩
  · rw [if_neg (by rw [hlen]; exact_mod_cast hk), if_neg hk, h.indexed.mergeSort_eq, hlen]
    -- the sorted index lists the nonces in order
    have hsize : (Slice.ofList (a.items.map Transaction.nonce)).size = a.items.length := by
      simp [Slice.ofList]
    have hget : ∀ i (hi : i < a.items.length),
        (Slice.ofList (a.items.map Transaction.nonce)).get i = a.items[i].nonce := by
      intro i hi
      simp [Slice.ofList, List.getD_eq_getElem?_getD, hi]
    obtain ⟨items', hrun, h'⟩ := capLoop_spec hsize hget k a.items.length [] m.items (by omega) (Nat.le_refl _)
      (by rw [List.take_length]; exact h.indexed.toHolds)
    dsimp only
    rw [hrun, List.take_length, List.nil_append, Option.bind_some, Int.toNat_natCast]
    -- the heap of the nonces that stay
    have hindex : Indexed items' (init ⟨k, (Slice.ofList (a.items.map Transaction.nonce)).get⟩) (a.items.take k) := by
      refine ⟨h', (init_perm _).trans ?_, init_isHeap _⟩
      rw [Slice.toList_ofList_take _ (by simp; omega), ← List.map_take]
      exact h'.keys_perm.symm
    cases hc : m.cache with
    | none => exact ⟨_, rfl, hindex, fun _ hc' => by cases hc'⟩
    | some cache =>
      have hcache := h.cache_eq cache hc
      have hdrops : (List.map some (a.items.drop k).reverse).length ≤ a.items.length := by simp
      -- the cache loses as many transactions at its back
      have hkeep : a.items.length - (List.map some (a.items.drop k).reverse).length = k := by
        rw [List.length_map, List.length_reverse, List.length_drop]
        omega
      refine ⟨⟨items', _, some (a.items.take k)⟩, ?_, hindex, fun c hc' => ?_⟩
      · dsimp only
        rw [hcache, if_pos hdrops, hkeep]
        rfl
      · cases hc'
        rfl

theorem filter_refines (h : m.Refines a) (f : Transaction Addr Hash → Bool) :
    (m.filter f).1.Perm (a.filter f).1 ∧ (m.filter f).2.Refines (a.filter f).2 := by
  have hes : ∀ e ∈ m.items.entries, m.items.lookup e.1 = some e.2 := fun e he => AList.mem_lookup_iff.2 he
  obtain ⟨h1, h2, h3⟩ := filterLoop_spec f m.items.entries [] m.items hes m.items.nodupKeys
  rw [← mapTxs_eq_map] at h1 h2
  rw [List.nil_append] at h1
  -- what is collected passes the test, and what is left holds the rest
  have hremoved : (filterLoop f m.items.entries ([], m.items)).1.Perm (a.filter f).1 := by
    rw [h1]
    exact h.indexed.txs_perm.filter f
  have hholds : Holds (filterLoop f m.items.entries ([], m.items)).2 (a.filter f).2.items := by
    refine ⟨(a.filter f).2.sorted, ?_, fun n tx hn => h.indexed.nonce_eq n tx (h3 n tx hn)⟩
    have hsplit := (h2.trans h.indexed.txs_perm).trans (List.filter_append_perm f a.items).symm
    have hswap := (List.perm_append_comm.trans hsplit).trans ((h.indexed.txs_perm.filter f).symm.append_right _)
    exact List.perm_append_left_iff _ |>.1 hswap
  unfold filter filterItems
  dsimp only
  by_cases hpos : 0 < (filterLoop f m.items.entries ([], m.items)).1.length
  · -- transactions were removed: the heap is made anew and the cache dropped
    rw [if_pos hpos, if_pos hpos]
    refine ⟨hremoved, ⟨hholds, ?_, init_isHeap _⟩, fun _ hc => by cases hc⟩
    exact (init_perm _).trans (by rw [Slice.toList_ofList]; exact List.Perm.refl _)
  · -- nothing passed the test: the map is as it was
    rw [if_neg hpos, if_neg hpos]
    have hnil : (mapTxs m.items).filter f = [] := by
      rw [h1] at hpos
      exact List.eq_nil_of_length_eq_zero (Nat.eq_zero_of_not_pos hpos)
    have hall : ∀ e ∈ m.items.entries, f e.2 = false := by
      intro e he
      have hmem : e.2 ∈ mapTxs m.items := by
        rw [mapTxs_eq_map]
        exact List.mem_map_of_mem he
      simpa [hnil] using List.filter_eq_nil_iff.1 hnil e.2 hmem
    rw [filterLoop_of_forall_false f _ [] m.items hall]
    have hkept : (a.filter f).2.items = a.items := by
      have hp := (h.indexed.txs_perm.filter f).symm
      rw [hnil] at hp
      show a.items.filter (fun tx => !f tx) = a.items
      rw [List.filter_eq_self]
      intro x hx
      simpa using List.filter_eq_nil_iff.1 hp.eq_nil x hx
    refine ⟨by simpa [filterLoop_of_forall_false f _ [] m.items hall] using hremoved, ?_⟩
    exact h.of_items_eq hkept.symm

theorem remove_refines (h : m.Refines a) (nonce : ℕ) :
    (m.remove nonce).1 = (a.remove nonce).1 ∧ (m.remove nonce).2.Refines (a.remove nonce).2 := by
  unfold remove TxsSortedMap.remove
  cases hn : m.items.lookup nonce with
  | none =>
    -- the abstract map holds no transaction of the nonce either
    have ha : a.get nonce = none := TxsSortedMap.get_eq_none_iff.2 fun x hx hxn => by
      rw [← hxn, h.indexed.lookup_of_mem hx] at hn
      cases hn
    simp only [ha, Option.isSome_none, Bool.false_eq_true, if_false]
    exact ⟨trivial, h⟩
  | some x =>
    obtain ⟨hx, hxn⟩ := h.indexed.lookup_eq_some_iff.1 hn
    have ha : (a.get nonce).isSome := by rw [TxsSortedMap.get_eq_some_iff.2 ⟨hx, hxn⟩]; rfl
    -- the nonce is somewhere in the heap, and the search finds it
    have hmem : nonce ∈ m.index.toList :=
      h.indexed.index_perm.symm.subset (AList.mem_keys.1 (AList.lookup_isSome.1 (by rw [hn]; rfl)))
    obtain ⟨j, hj, hjn⟩ := Slice.mem_toList.1 hmem
    obtain ⟨i, hfind⟩ : ∃ i, (List.range m.index.size).find? (fun i => m.index.get i = nonce) = some i :=
      Option.isSome_iff_exists.1 (List.find?_isSome.2 ⟨j, List.mem_range.2 hj, by simpa using hjn⟩)
    have hi : i < m.index.size := List.mem_range.1 (List.mem_of_find?_eq_some hfind)
    have hget : m.index.get i = nonce := by simpa using List.find?_some hfind
    simp only [hfind, ha, if_true]
    refine ⟨trivial, ?_, fun _ hc => by cases hc⟩
    have hrest := h.indexed.remove hi hget
    have hfilter : (a.items.filter fun tx => tx.nonce ≠ nonce) = a.items.filter fun tx => !(tx.nonce = nonce) :=
      List.filter_congr fun tx _ => by simp
    rw [hfilter] at hrest
    exact hrest

theorem ready_refines (h : m.Refines a) (start : ℕ) :
    (m.ready start).1 = (a.ready start).1.map some ∧ (m.ready start).2.Refines (a.ready start).2 := by
  obtain ⟨items, sorted⟩ := a
  unfold ready TxsSortedMap.ready
  cases items with
  | nil =>
    -- an empty heap
    have hsize : m.index.size = 0 := h.indexed.size_eq
    simp only [hsize, true_or, if_true, List.head?_nil]
    exact ⟨rfl, h⟩
  | cons x L =>
    have hroot : m.index.get 0 = x.nonce := h.indexed.get_zero
    have hsize : m.index.size ≠ 0 := by
      rw [h.indexed.size_eq]
      exact Nat.succ_ne_zero _
    simp only [List.head?_cons, hroot, hsize, false_or, gt_iff_lt]
    by_cases hs : start < x.nonce
    · rw [if_pos hs, if_pos hs]
      exact ⟨rfl, h⟩
    · rw [if_neg hs, if_neg hs]
      obtain ⟨items', index', hrun, h'⟩ := readyLoop_spec x.nonce [] m.items m.index h.indexed
      rw [hrun, List.nil_append]
      exact ⟨rfl, h', fun _ hc => by cases hc⟩

theorem flattenCache_refines (h : m.Refines a) : m.flattenCache.1 = a.items ∧ m.flattenCache.2.Refines a := by
  unfold flattenCache
  cases hc : m.cache with
  | some cache => exact ⟨h.cache_eq cache hc, h⟩
  | none =>
    -- the cache made now is the sorted map
    have hs := h.indexed.sortByNonce_eq
    refine ⟨hs, h.indexed, fun c hc' => ?_⟩
    cases hc'
    exact hs

theorem flatten_refines (h : m.Refines a) : m.flatten.1 = a.flatten ∧ m.flatten.2.Refines a :=
  flattenCache_refines h

theorem lastElement_refines (h : m.Refines a) :
    m.lastElement.map Prod.fst = a.lastElement ∧ ∀ r ∈ m.lastElement, r.2.Refines a := by
  obtain ⟨h1, h2⟩ := flattenCache_refines h
  unfold lastElement TxsSortedMap.lastElement
  dsimp only
  rw [h1]
  refine ⟨by rw [Option.map_map]; exact Option.map_id', fun r hr => ?_⟩
  obtain ⟨tx, -, rfl⟩ := Option.mem_map.1 hr
  exact h2

theorem get_refines (h : m.Refines a) (nonce : ℕ) : m.get nonce = a.get nonce := by
  cases hg : a.get nonce with
  | none =>
    cases hn : m.get nonce with
    | none => rfl
    | some x =>
      rw [TxsSortedMap.get_eq_none_iff] at hg
      exact absurd (h.indexed.lookup_eq_some_iff.1 hn).2 (hg x (h.indexed.lookup_eq_some_iff.1 hn).1)
  | some x => exact h.indexed.lookup_eq_some_iff.2 (TxsSortedMap.get_eq_some_iff.1 hg)

theorem len_refines (h : m.Refines a) : m.len = a.len :=
  h.indexed.length_entries

/-- Every call that does not panic keeps the refinement, to the abstract map the operation makes. -/
theorem step_refines {m : TxsSortedMapRep Addr Hash} {a : TxsSortedMap Addr Hash} (h : m.Refines a) :
    ∀ (c : Call Addr Hash) {m' : TxsSortedMapRep Addr Hash}, m.step c = some m' → ∃ a', m'.Refines a'
  | .put tx, _, hs => by
    simp only [step, Option.some.injEq] at hs
    subst hs
    exact ⟨_, put_refines h tx⟩
  | .forward threshold, _, hs => by
    obtain ⟨m'', hf, h''⟩ := forward_refines h threshold
    rw [step, hf, Option.map_some, Option.some.injEq] at hs
    subst hs
    exact ⟨_, h''⟩
  | .filter f, _, hs => by
    simp only [step, Option.some.injEq] at hs
    subst hs
    exact ⟨_, (filter_refines h f).2⟩
  | .cap threshold, _, hs => by
    rcases Int.lt_or_le threshold 0 with hneg | hnonneg
    · rw [step, cap_of_neg m hneg] at hs
      cases hs
    · obtain ⟨k, rfl⟩ := Int.eq_ofNat_of_zero_le hnonneg
      obtain ⟨m'', hc, h''⟩ := cap_refines h k
      rw [step, hc, Option.map_some, Option.some.injEq] at hs
      subst hs
      exact ⟨_, h''⟩
  | .remove nonce, _, hs => by
    simp only [step, Option.some.injEq] at hs
    subst hs
    exact ⟨_, (remove_refines h nonce).2⟩
  | .ready start, _, hs => by
    simp only [step, Option.some.injEq] at hs
    subst hs
    exact ⟨_, (ready_refines h start).2⟩
  | .flatten, _, hs => by
    simp only [step, Option.some.injEq] at hs
    subst hs
    exact ⟨_, (flatten_refines h).2⟩
  | .lastElement, _, hs => by
    rw [step] at hs
    obtain ⟨r, hr, rfl⟩ := Option.map_eq_some_iff.1 hs
    exact ⟨_, (lastElement_refines h).2 r hr⟩

theorem refines_run {m : TxsSortedMapRep Addr Hash} {a : TxsSortedMap Addr Hash} (h : m.Refines a) :
    ∀ (calls : List (Call Addr Hash)) {m' : TxsSortedMapRep Addr Hash}, m.run calls = some m' →
      ∃ a', m'.Refines a'
  | [], _, hrun => by
    cases hrun
    exact ⟨a, h⟩
  | c :: cs, _, hrun => by
    obtain ⟨m₁, hstep, hrest⟩ := Option.bind_eq_some_iff.1 hrun
    obtain ⟨a₁, h₁⟩ := step_refines h c hstep
    exact refines_run h₁ cs hrest

/-- Along any run of calls from `newTxSortedMap`, the heap holds each key of the map once and in heap order,
every transaction is under its nonce and the cache, if any, is the sorted map; and every operation returns what
the abstract one returns on the transactions the map holds: `Forward` those below the threshold in increasing
order, `Cap` those above the threshold, highest first (a threshold under zero panics), `Remove` whether the
nonce was held, `Ready` the run of consecutive nonces from the least one if that is at most `start`, `Flatten`
all of them in nonce order. -/
theorem run_refines (calls : List (Call Addr Hash)) (m : TxsSortedMapRep Addr Hash)
    (hrun : newTxSortedMap.run calls = some m) :
    m.Inv ∧ ∃ a : TxsSortedMap Addr Hash, m.Refines a ∧
      (∀ tx, (m.put tx).Refines (a.put tx)) ∧
      (∀ t, ∃ m', m.forward t = some ((a.forward t).1.map some, m') ∧ m'.Refines (a.forward t).2) ∧
      (∀ f, (m.filter f).1.Perm (a.filter f).1 ∧ (m.filter f).2.Refines (a.filter f).2) ∧
      (∀ k : ℕ, ∃ m', m.cap k = some ((a.cap k).1.map some, m') ∧ m'.Refines (a.cap k).2) ∧
      (∀ k : ℤ, k < 0 → m.cap k = none) ∧
      (∀ n, (m.remove n).1 = (a.remove n).1 ∧ (m.remove n).2.Refines (a.remove n).2) ∧
      (∀ s, (m.ready s).1 = (a.ready s).1.map some ∧ (m.ready s).2.Refines (a.ready s).2) ∧
      (m.flatten.1 = a.flatten ∧ m.flatten.2.Refines a) ∧
      m.lastElement.map Prod.fst = a.lastElement := by
  obtain ⟨a, h⟩ := refines_run newTxSortedMap_refines calls hrun
  exact ⟨h.inv, a, h, put_refines h, forward_refines h, filter_refines h, cap_refines h,
    fun k hk => m.cap_of_neg hk, remove_refines h, ready_refines h, flatten_refines h, (lastElement_refines h).1⟩

theorem run_refines_twoPuts :
    let m := ((newTxSortedMap : TxsSortedMapRep ℕ ℕ).put (TxsList.nonceTx 1)).put (TxsList.nonceTx 0)
    newTxSortedMap.run [.put (TxsList.nonceTx 1), .put (TxsList.nonceTx 0)] = some m ∧ m.Inv := by
  intro m
  exact ⟨rfl, (run_refines [.put (TxsList.nonceTx 1), .put (TxsList.nonceTx 0)] m rfl).1⟩

end TxsSortedMapRep

end AmazeChain.Txspool
