import Mathlib.Data.List.Pairwise
import Mathlib.Data.List.Sublists
import AmazeChain.Txspool.Tx

/-!
# The per-account transaction lists

`txsSortedMap` (`internal/txspool/txs_list.go`) holds the transactions of one account, at most one per nonce;
its heap index and its cache only serve the nonce order, so the model keeps the transactions as a list sorted
by strictly increasing nonce and the structure carries that order (`TxsSortedMap.sorted`).  Every operation
returns the transactions it removes, in increasing nonce order (`Cap` in decreasing order, as the source does;
`Filter` visits a Go map, whose order is unspecified, and nothing downstream depends on it).

`txsList` adds the strict flag of a pending list, which makes a removal invalidate every later nonce, and the
caps on cost and gas that let `Filter` skip a list whose transactions all fit.  `Add` replaces a transaction of
the same nonce only if the new one pays more gas and beats the price bump.
-/

namespace AmazeChain.Txspool

variable {Addr Hash : Type}

/-- The transactions of an account in increasing nonce order. -/
structure TxsSortedMap (Addr Hash : Type) where
  items : List (Transaction Addr Hash)
  sorted : items.Pairwise fun a b => a.nonce < b.nonce

namespace TxsSortedMap

/-- `newTxSortedMap`. -/
def empty : TxsSortedMap Addr Hash := ⟨[], List.Pairwise.nil⟩

/-- `Get`: the transaction of a nonce. -/
def get (m : TxsSortedMap Addr Hash) (nonce : ℕ) : Option (Transaction Addr Hash) :=
  m.items.find? fun tx => tx.nonce = nonce

/-- Insert in nonce order, in place of a transaction of the same nonce. -/
def insertByNonce (tx : Transaction Addr Hash) : List (Transaction Addr Hash) → List (Transaction Addr Hash)
  | [] => [tx]
  | t :: ts =>
    if tx.nonce < t.nonce then tx :: t :: ts
    else if tx.nonce = t.nonce then tx :: ts
    else t :: insertByNonce tx ts

theorem mem_insertByNonce {tx x : Transaction Addr Hash} :
    ∀ {l : List (Transaction Addr Hash)}, l.Pairwise (fun a b => a.nonce < b.nonce) →
      (x ∈ insertByNonce tx l ↔ x = tx ∨ x ∈ l ∧ x.nonce ≠ tx.nonce)
  | [], _ => by simp [insertByNonce]
  | t :: ts, h => by
    rw [List.pairwise_cons] at h
    unfold insertByNonce
    by_cases hlt : tx.nonce < t.nonce
    · -- every transaction of the list comes after `tx`
      have hts : ∀ y ∈ ts, y.nonce ≠ tx.nonce := fun y hy => by have := h.1 y hy; omega
      rw [if_pos hlt]
      simp only [List.mem_cons]
      constructor
      · rintro (rfl | rfl | hx)
        · exact .inl rfl
        · exact .inr ⟨.inl rfl, by omega⟩
        · exact .inr ⟨.inr hx, hts x hx⟩
      · rintro (rfl | ⟨rfl | hx, -⟩)
        · exact .inl rfl
        · exact .inr (.inl rfl)
        · exact .inr (.inr hx)
    · by_cases heq : tx.nonce = t.nonce
      · -- `tx` takes the place of `t`
        have hts : ∀ y ∈ ts, y.nonce ≠ tx.nonce := fun y hy => by have := h.1 y hy; omega
        rw [if_neg hlt, if_pos heq]
        simp only [List.mem_cons]
        constructor
        · rintro (rfl | hx)
          · exact .inl rfl
          · exact .inr ⟨.inr hx, hts x hx⟩
        · rintro (rfl | ⟨rfl | hx, hne⟩)
          · exact .inl rfl
          · exact absurd heq.symm hne
          · exact .inr hx
      · rw [if_neg hlt, if_neg heq]
        simp only [List.mem_cons, mem_insertByNonce h.2]
        constructor
        · rintro (rfl | rfl | ⟨hx, hne⟩)
          · exact .inr ⟨.inl rfl, fun e => heq e.symm⟩
          · exact .inl rfl
          · exact .inr ⟨.inr hx, hne⟩
        · rintro (rfl | ⟨rfl | hx, hne⟩)
          · exact .inr (.inl rfl)
          · exact .inl rfl
          · exact .inr (.inr ⟨hx, hne⟩)

theorem pairwise_insertByNonce (tx : Transaction Addr Hash) :
    ∀ {l : List (Transaction Addr Hash)}, l.Pairwise (fun a b => a.nonce < b.nonce) →
      (insertByNonce tx l).Pairwise fun a b => a.nonce < b.nonce
  | [], _ => List.pairwise_singleton _ _
  | t :: ts, h => by
    have h' := List.pairwise_cons.1 h
    unfold insertByNonce
    by_cases hlt : tx.nonce < t.nonce
    · rw [if_pos hlt]
      refine List.Pairwise.cons (fun y hy => ?_) h
      rcases List.mem_cons.1 hy with rfl | hy
      · exact hlt
      · exact hlt.trans (h'.1 y hy)
    · by_cases heq : tx.nonce = t.nonce
      · rw [if_neg hlt, if_pos heq]
        exact List.Pairwise.cons (fun y hy => heq ▸ h'.1 y hy) h'.2
      · rw [if_neg hlt, if_neg heq]
        refine List.Pairwise.cons (fun y hy => ?_) (pairwise_insertByNonce tx h'.2)
        rcases (mem_insertByNonce h'.2).1 hy with rfl | ⟨hy, -⟩
        · omega
        · exact h'.1 y hy

/-- `Put`: insert a transaction, replacing the one of the same nonce. -/
def put (m : TxsSortedMap Addr Hash) (tx : Transaction Addr Hash) : TxsSortedMap Addr Hash :=
  ⟨insertByNonce tx m.items, pairwise_insertByNonce tx m.sorted⟩

/-- Keep the transactions that fail a test, and return those that pass it. -/
def partition (m : TxsSortedMap Addr Hash) (p : Transaction Addr Hash → Bool) :
    List (Transaction Addr Hash) × TxsSortedMap Addr Hash :=
  (m.items.filter p, ⟨m.items.filter fun tx => !p tx, m.sorted.sublist List.filter_sublist⟩)

/-- `Forward`: remove every transaction below a nonce. -/
def forward (m : TxsSortedMap Addr Hash) (threshold : ℕ) :
    List (Transaction Addr Hash) × TxsSortedMap Addr Hash :=
  m.partition fun tx => tx.nonce < threshold

/-- `Filter`: remove every transaction that passes a test. -/
def filter (m : TxsSortedMap Addr Hash) (p : Transaction Addr Hash → Bool) :
    List (Transaction Addr Hash) × TxsSortedMap Addr Hash :=
  m.partition p

/-- `Cap`: keep the `threshold` lowest nonces and return the others, highest first. -/
def cap (m : TxsSortedMap Addr Hash) (threshold : ℕ) : List (Transaction Addr Hash) × TxsSortedMap Addr Hash :=
  if m.items.length ≤ threshold then ([], m)
  else ((m.items.drop threshold).reverse, ⟨m.items.take threshold, m.sorted.sublist (List.take_sublist _ _)⟩)

/-- `Remove`: delete the transaction of a nonce, if there is one. -/
def remove (m : TxsSortedMap Addr Hash) (nonce : ℕ) : Bool × TxsSortedMap Addr Hash :=
  if (m.get nonce).isSome then (true, (m.partition fun tx => tx.nonce = nonce).2) else (false, m)

/-- The run of transactions with consecutive nonces from `next` at the front of a list, and the rest. -/
def run (next : ℕ) : List (Transaction Addr Hash) → List (Transaction Addr Hash) × List (Transaction Addr Hash)
  | [] => ([], [])
  | t :: ts => if t.nonce = next then ((run (next + 1) ts).1.cons t, (run (next + 1) ts).2) else ([], t :: ts)

theorem run_append (next : ℕ) : ∀ l : List (Transaction Addr Hash), (run next l).1 ++ (run next l).2 = l
  | [] => rfl
  | t :: ts => by
    unfold run
    split
    · simp only [List.cons_append, run_append (next + 1) ts]
    · rfl

theorem run_snd_sublist (next : ℕ) (l : List (Transaction Addr Hash)) : (run next l).2.Sublist l := by
  conv => rhs; rw [← run_append next l]
  exact List.sublist_append_right _ _

/-- `Ready`: when the lowest nonce is at most `start`, remove and return the run of consecutive nonces from
it. -/
def ready (m : TxsSortedMap Addr Hash) (start : ℕ) : List (Transaction Addr Hash) × TxsSortedMap Addr Hash :=
  match m.items.head? with
  | none => ([], m)
  | some t =>
    if t.nonce > start then ([], m)
    else ((run t.nonce m.items).1, ⟨(run t.nonce m.items).2, m.sorted.sublist (run_snd_sublist _ _)⟩)

/-- `Len`. -/
def len (m : TxsSortedMap Addr Hash) : ℕ := m.items.length

/-- `Flatten`: the transactions in nonce order. -/
def flatten (m : TxsSortedMap Addr Hash) : List (Transaction Addr Hash) := m.items

/-- `LastElement`: the transaction of the highest nonce (the source indexes past the end of an empty map). -/
def lastElement (m : TxsSortedMap Addr Hash) : Option (Transaction Addr Hash) := m.items.getLast?


/-! ### What the operations keep and remove -/

/-- No two transactions of the map share a nonce. -/
theorem eq_of_nonce_eq {x y : Transaction Addr Hash} :
    ∀ {l : List (Transaction Addr Hash)}, l.Pairwise (fun a b => a.nonce < b.nonce) → x ∈ l → y ∈ l →
      x.nonce = y.nonce → x = y
  | [], _, hx, _, _ => absurd hx List.not_mem_nil
  | t :: ts, h, hx, hy, hn => by
    rw [List.pairwise_cons] at h
    rcases List.mem_cons.1 hx with hxt | hx
    · rcases List.mem_cons.1 hy with hyt | hy
      · rw [hxt, hyt]
      · have := h.1 y hy; rw [hxt] at hn; omega
    · rcases List.mem_cons.1 hy with hyt | hy
      · have := h.1 x hx; rw [hyt] at hn; omega
      · exact eq_of_nonce_eq h.2 hx hy hn

theorem get_eq_some_iff {m : TxsSortedMap Addr Hash} {n : ℕ} {tx : Transaction Addr Hash} :
    m.get n = some tx ↔ tx ∈ m.items ∧ tx.nonce = n := by
  unfold get
  constructor
  · intro h
    exact ⟨List.mem_of_find?_eq_some h, by simpa using List.find?_some h⟩
  · rintro ⟨hmem, hn⟩
    obtain ⟨b, hb⟩ : ∃ b, m.items.find? (fun tx => decide (tx.nonce = n)) = some b :=
      Option.isSome_iff_exists.1 (List.find?_isSome.2 ⟨tx, hmem, by simpa using hn⟩)
    have hbn : b.nonce = n := by simpa using List.find?_some hb
    rw [hb, eq_of_nonce_eq m.sorted (List.mem_of_find?_eq_some hb) hmem (hbn.trans hn.symm)]

theorem get_eq_none_iff {m : TxsSortedMap Addr Hash} {n : ℕ} :
    m.get n = none ↔ ∀ x ∈ m.items, x.nonce ≠ n := by
  simp [get, List.find?_eq_none]

/-- In a list sorted by nonce, the transactions of a nonce are the first one. -/
theorem filter_nonce_eq_find? (n : ℕ) :
    ∀ {l : List (Transaction Addr Hash)}, l.Pairwise (fun a b => a.nonce < b.nonce) →
      l.filter (fun x => decide (x.nonce = n)) = (l.find? fun x => decide (x.nonce = n)).toList
  | [], _ => rfl
  | t :: ts, h => by
    rw [List.pairwise_cons] at h
    by_cases ht : t.nonce = n
    · -- the later nonces are above `t`'s
      rw [List.filter_cons_of_pos (by simpa using ht), List.find?_cons_of_pos (by simpa using ht),
        List.filter_eq_nil_iff.2 fun y hy => by have := h.1 y hy; simp; omega]
      rfl
    · rw [List.filter_cons_of_neg (by simpa using ht), List.find?_cons_of_neg (by simpa using ht)]
      exact filter_nonce_eq_find? n h.2

theorem filter_nonce_eq (m : TxsSortedMap Addr Hash) (n : ℕ) :
    m.items.filter (fun x => decide (x.nonce = n)) = (m.get n).toList :=
  filter_nonce_eq_find? n m.sorted

theorem insertByNonce_perm (tx : Transaction Addr Hash) :
    ∀ {l : List (Transaction Addr Hash)}, l.Pairwise (fun a b => a.nonce < b.nonce) →
      (insertByNonce tx l).Perm (tx :: l.filter fun x => decide (x.nonce ≠ tx.nonce))
  | [], _ => by simp [insertByNonce]
  | t :: ts, h => by
    rw [List.pairwise_cons] at h
    -- every transaction after `t` has a nonce above it
    have hts : ∀ y ∈ ts, t.nonce < y.nonce := h.1
    unfold insertByNonce
    by_cases hlt : tx.nonce < t.nonce
    · rw [if_pos hlt, List.filter_eq_self.2]
      intro y hy
      rcases List.mem_cons.1 hy with rfl | hy
      · simp; omega
      · have := hts y hy; simp; omega
    · by_cases heq : tx.nonce = t.nonce
      · rw [if_neg hlt, if_pos heq, List.filter_cons_of_neg (by simp [heq]), List.filter_eq_self.2]
        intro y hy
        have := hts y hy
        simp; omega
      · rw [if_neg hlt, if_neg heq, List.filter_cons_of_pos (by simp; omega)]
        exact ((insertByNonce_perm tx h.2).cons t).trans (List.Perm.swap _ _ _)

/-- `Put` adds the transaction and takes out the one of its nonce. -/
theorem perm_put (m : TxsSortedMap Addr Hash) (tx : Transaction Addr Hash) :
    ((m.put tx).items ++ (m.get tx.nonce).toList).Perm (tx :: m.items) := by
  rw [← filter_nonce_eq]
  refine ((insertByNonce_perm tx m.sorted).append_right _).trans ?_
  rw [List.cons_append]
  refine List.Perm.cons _ ?_
  have := List.filter_append_perm (fun x : Transaction Addr Hash => decide (x.nonce ≠ tx.nonce)) m.items
  simpa using this

theorem perm_partition (m : TxsSortedMap Addr Hash) (p : Transaction Addr Hash → Bool) :
    ((m.partition p).1 ++ (m.partition p).2.items).Perm m.items :=
  List.filter_append_perm p m.items

theorem perm_cap (m : TxsSortedMap Addr Hash) (n : ℕ) :
    ((m.cap n).1 ++ (m.cap n).2.items).Perm m.items := by
  unfold cap
  split
  · exact List.Perm.refl _
  · -- the highest nonces, reversed, and the `n` lowest
    refine ((List.reverse_perm _).append_right _).trans ?_
    conv => rhs; rw [← List.take_append_drop n m.items]
    exact List.perm_append_comm

theorem ready_append (m : TxsSortedMap Addr Hash) (start : ℕ) :
    (m.ready start).1 ++ (m.ready start).2.items = m.items := by
  unfold ready
  split
  · rfl
  · split
    · rfl
    · exact run_append _ _

theorem remove_eq_false {m : TxsSortedMap Addr Hash} {n : ℕ} (h : (m.remove n).1 = false) :
    (m.remove n).2 = m ∧ m.get n = none := by
  unfold remove at h ⊢
  split at h
  · cases h
  · rename_i hg
    rw [if_neg hg]
    exact ⟨rfl, Option.not_isSome_iff_eq_none.1 hg⟩

theorem remove_eq_true {m : TxsSortedMap Addr Hash} {n : ℕ} (h : (m.remove n).1 = true) :
    ∃ x, m.get n = some x ∧ m.items.Perm (x :: (m.remove n).2.items) := by
  unfold remove at h ⊢
  split at h
  · rename_i hg
    obtain ⟨x, hx⟩ := Option.isSome_iff_exists.1 hg
    refine ⟨x, hx, ?_⟩
    rw [if_pos hg]
    have := perm_partition m fun tx => decide (tx.nonce = n)
    unfold partition at this ⊢
    rw [filter_nonce_eq, hx] at this
    exact this.symm
  · cases h

end TxsSortedMap

/-- `txsList`: the transactions of an account, strict for a pending list, with the highest cost and gas seen
since the last `Filter`. -/
structure TxsList (Addr Hash : Type) where
  strict : Bool
  txs : TxsSortedMap Addr Hash
  costcap : ℕ
  gascap : ℕ

namespace TxsList

/-- `newTxsList`. -/
def new (strict : Bool) : TxsList Addr Hash := ⟨strict, .empty, 0, 0⟩

/-- `Overlaps`: a transaction of the same nonce is in the list. -/
def overlaps (l : TxsList Addr Hash) (tx : Transaction Addr Hash) : Bool := (l.txs.get tx.nonce).isSome

/-- Put the transaction into the list and raise the caps to its cost and gas. -/
def insert (l : TxsList Addr Hash) (tx : Transaction Addr Hash) : TxsList Addr Hash :=
  { l with txs := l.txs.put tx, costcap := max l.costcap tx.cost, gascap := max l.gascap tx.gas }

/-- `Add`: insert a transaction unless one of the same nonce is better: the new one must pay strictly more
gas and price, and a fee cap and a tip of at least `(100 + priceBump)%` of the old price.  Returns whether it
was inserted and the transaction it replaced. -/
def add (l : TxsList Addr Hash) (tx : Transaction Addr Hash) (priceBump : ℕ) :
    Bool × Option (Transaction Addr Hash) × TxsList Addr Hash :=
  match l.txs.get tx.nonce with
  | none => (true, none, l.insert tx)
  | some old =>
    if old.gas ≥ tx.gas ∨ old.gasPrice ≥ tx.gasPrice then (false, none, l)
    else
      -- `a` is multiplied by the old price twice over, into the fee cap and the tip thresholds
      let a := (100 + priceBump) % u64
      let thresholdFeeCap := a * old.gasPrice % u256 / 100
      let thresholdTip := a * old.gasPrice % u256 / 100
      if tx.gasFeeCap < thresholdFeeCap ∨ tx.gasTipCap < thresholdTip then (false, none, l)
      else (true, some old, l.insert tx)

/-- `Forward`. -/
def forward (l : TxsList Addr Hash) (threshold : ℕ) : List (Transaction Addr Hash) × TxsList Addr Hash :=
  ((l.txs.forward threshold).1, { l with txs := (l.txs.forward threshold).2 })

/-- The lowest nonce of the removed transactions, starting from `math.MaxUint64`. -/
def lowestNonce (removed : List (Transaction Addr Hash)) : ℕ :=
  removed.foldl (fun lowest tx => if lowest > tx.nonce then tx.nonce else lowest) maxUint64

/-- `Filter`: unless the caps fit the limits, lower them to the limits and remove every transaction over
them; a strict list also gives up every transaction above the lowest removed nonce.  Returns the removed
and the invalidated transactions. -/
def filter (l : TxsList Addr Hash) (costLimit gasLimit : ℕ) :
    List (Transaction Addr Hash) × List (Transaction Addr Hash) × TxsList Addr Hash :=
  if l.costcap ≤ costLimit ∧ l.gascap ≤ gasLimit then ([], [], l)
  else
    let l := { l with costcap := costLimit, gascap := gasLimit }
    let (removed, txs) := l.txs.filter fun tx => tx.gas > gasLimit ∨ tx.cost > costLimit
    if removed = [] then ([], [], { l with txs := txs })
    else if l.strict then
      let lowest := lowestNonce removed
      let (invalids, txs) := txs.filter fun tx => tx.nonce > lowest
      (removed, invalids, { l with txs := txs })
    else (removed, [], { l with txs := txs })

/-- `Cap`. -/
def cap (l : TxsList Addr Hash) (threshold : ℕ) : List (Transaction Addr Hash) × TxsList Addr Hash :=
  ((l.txs.cap threshold).1, { l with txs := (l.txs.cap threshold).2 })

/-- `Remove`: delete the transaction of the nonce of `tx`; a strict list also gives up every later nonce.
Returns whether a transaction was deleted and the invalidated ones. -/
def remove (l : TxsList Addr Hash) (tx : Transaction Addr Hash) :
    Bool × List (Transaction Addr Hash) × TxsList Addr Hash :=
  let nonce := tx.nonce
  let (removed, txs) := l.txs.remove nonce
  if !removed then (false, [], l)
  else if l.strict then
    let (invalids, txs) := txs.filter fun tx => tx.nonce > nonce
    (true, invalids, { l with txs := txs })
  else (true, [], { l with txs := txs })

/-- `Ready`. -/
def ready (l : TxsList Addr Hash) (start : ℕ) : List (Transaction Addr Hash) × TxsList Addr Hash :=
  ((l.txs.ready start).1, { l with txs := (l.txs.ready start).2 })

def len (l : TxsList Addr Hash) : ℕ := l.txs.len

def empty (l : TxsList Addr Hash) : Bool := l.len = 0

def flatten (l : TxsList Addr Hash) : List (Transaction Addr Hash) := l.txs.flatten

def lastElement (l : TxsList Addr Hash) : Option (Transaction Addr Hash) := l.txs.lastElement


/-! ### What the list operations keep and remove

Each operation splits the transactions of the list into those it returns and those it keeps; up to order,
the two together are the list (`perm_forward`, `perm_filter`, `perm_cap`, `ready_append`, `perm_remove`).
An insertion takes out the transaction of the new one's nonce (`perm_insert`), and `Add` either refuses or
inserts, giving back what `Get` found at that nonce (`add_cases`). -/

@[simp] theorem flatten_new (strict : Bool) : (new strict : TxsList Addr Hash).flatten = [] := rfl

theorem empty_iff {l : TxsList Addr Hash} : l.empty = true ↔ l.flatten = [] := by
  simp [empty, len, flatten, TxsSortedMap.len, TxsSortedMap.flatten]

theorem overlaps_iff {l : TxsList Addr Hash} {tx : Transaction Addr Hash} :
    l.overlaps tx = true ↔ ∃ x ∈ l.flatten, x.nonce = tx.nonce := by
  unfold overlaps flatten TxsSortedMap.flatten
  constructor
  · intro h
    obtain ⟨x, hx⟩ := Option.isSome_iff_exists.1 h
    exact ⟨x, TxsSortedMap.get_eq_some_iff.1 hx⟩
  · rintro ⟨x, hx⟩
    rw [TxsSortedMap.get_eq_some_iff.2 hx]
    rfl

theorem perm_insert (l : TxsList Addr Hash) (tx : Transaction Addr Hash) :
    ((l.insert tx).flatten ++ (l.txs.get tx.nonce).toList).Perm (tx :: l.flatten) :=
  l.txs.perm_put tx

theorem add_cases (l : TxsList Addr Hash) (tx : Transaction Addr Hash) (priceBump : ℕ) :
    l.add tx priceBump = (false, none, l) ∨ l.add tx priceBump = (true, l.txs.get tx.nonce, l.insert tx) := by
  unfold add
  cases hg : l.txs.get tx.nonce with
  | none => exact .inr rfl
  | some old =>
    dsimp only
    split
    · exact .inl rfl
    · split
      · exact .inl rfl
      · exact .inr rfl

theorem add_of_get_eq_none {l : TxsList Addr Hash} {tx : Transaction Addr Hash} (h : l.txs.get tx.nonce = none)
    (priceBump : ℕ) : l.add tx priceBump = (true, none, l.insert tx) := by
  simp [add, h]

theorem perm_forward (l : TxsList Addr Hash) (threshold : ℕ) :
    ((l.forward threshold).1 ++ (l.forward threshold).2.flatten).Perm l.flatten :=
  l.txs.perm_partition _

theorem perm_cap (l : TxsList Addr Hash) (threshold : ℕ) :
    ((l.cap threshold).1 ++ (l.cap threshold).2.flatten).Perm l.flatten :=
  l.txs.perm_cap threshold

/-- `Cap` where the source caps only some lists, and gives up nothing for the others. -/
theorem perm_cap_if (c : Prop) [Decidable c] (l : TxsList Addr Hash) (threshold : ℕ) :
    ((if c then l.cap threshold else ([], l)).1 ++ (if c then l.cap threshold else ([], l)).2.flatten).Perm
      l.flatten := by
  split
  · exact l.perm_cap threshold
  · exact List.Perm.refl _

theorem ready_append (l : TxsList Addr Hash) (start : ℕ) :
    (l.ready start).1 ++ (l.ready start).2.flatten = l.flatten :=
  l.txs.ready_append start

theorem perm_filter (l : TxsList Addr Hash) (costLimit gasLimit : ℕ) :
    ((l.filter costLimit gasLimit).1 ++ (l.filter costLimit gasLimit).2.1 ++
      (l.filter costLimit gasLimit).2.2.flatten).Perm l.flatten := by
  unfold filter
  split
  · exact List.Perm.refl _
  · dsimp only
    have h₁ := l.txs.perm_partition fun tx => decide (tx.gas > gasLimit ∨ tx.cost > costLimit)
    split
    · rename_i hr
      unfold TxsSortedMap.filter at hr
      rw [hr] at h₁
      exact h₁
    · split
      · -- a strict list also gives up everything above the lowest removed nonce
        have h₂ := (l.txs.partition fun tx => decide (tx.gas > gasLimit ∨ tx.cost > costLimit)).2.perm_partition
          fun tx => decide (tx.nonce > lowestNonce
            (l.txs.partition fun tx => decide (tx.gas > gasLimit ∨ tx.cost > costLimit)).1)
        rw [List.append_assoc]
        exact (h₂.append_left _).trans h₁
      · dsimp only
        rw [List.append_nil]
        exact h₁

theorem remove_eq_false {l : TxsList Addr Hash} {tx : Transaction Addr Hash} (h : (l.remove tx).1 = false) :
    (l.remove tx).2 = ([], l) ∧ l.txs.get tx.nonce = none := by
  unfold remove at h ⊢
  dsimp only at h ⊢
  cases hr : (l.txs.remove tx.nonce).1 with
  | false => exact ⟨by simp, (TxsSortedMap.remove_eq_false hr).2⟩
  | true =>
    simp only [hr, Bool.not_true, Bool.false_eq_true, if_false] at h
    split at h <;> cases h

/-- A removal takes out the transaction of the nonce and, from a strict list, the later ones. -/
theorem perm_remove {l : TxsList Addr Hash} {tx : Transaction Addr Hash} (h : (l.remove tx).1 = true) :
    ∃ x, l.txs.get tx.nonce = some x ∧ l.flatten.Perm (x :: ((l.remove tx).2.1 ++ (l.remove tx).2.2.flatten)) := by
  unfold remove at h ⊢
  dsimp only at h ⊢
  cases hr : (l.txs.remove tx.nonce).1 with
  | false => simp [hr] at h
  | true =>
    obtain ⟨x, hx, hp⟩ := TxsSortedMap.remove_eq_true hr
    refine ⟨x, hx, ?_⟩
    simp only [Bool.not_true, Bool.false_eq_true, if_false]
    split
    · exact hp.trans (List.Perm.cons _ (TxsSortedMap.perm_partition _ _).symm)
    · exact hp

/-- The nonces of a list are all different. -/
theorem nonces_nodup (l : TxsList Addr Hash) : (l.flatten.map Transaction.nonce).Nodup :=
  List.Pairwise.map _ (fun _ _ h => Nat.ne_of_lt h) l.txs.sorted

/-- The pieces a list operation splits a list into have distinct nonces. -/
theorem nonces_nodup_of_perm {l : TxsList Addr Hash} {L : List (Transaction Addr Hash)} (h : l.flatten.Perm L) :
    (L.map Transaction.nonce).Nodup :=
  (h.map _).nodup_iff.1 l.nonces_nodup

/-- `Remove` of a transaction the list holds finds that transaction itself. -/
theorem remove_self {l : TxsList Addr Hash} {tx : Transaction Addr Hash} (hx : tx ∈ l.flatten) :
    (l.remove tx).1 = true ∧ l.flatten.Perm (tx :: ((l.remove tx).2.1 ++ (l.remove tx).2.2.flatten)) := by
  have hrm : (l.remove tx).1 = true := by
    cases hr : (l.remove tx).1 with
    | true => rfl
    | false => exact absurd rfl (TxsSortedMap.get_eq_none_iff.1 (remove_eq_false hr).2 tx hx)
  obtain ⟨x, hxget, hperm⟩ := perm_remove hrm
  obtain ⟨hxmem, hxn⟩ := TxsSortedMap.get_eq_some_iff.1 hxget
  -- nonces are unique in a list, so the transaction of `tx`'s nonce is `tx`
  have hxt : x = tx := TxsSortedMap.eq_of_nonce_eq l.txs.sorted hxmem hx hxn
  exact ⟨hrm, hxt ▸ hperm⟩

@[simp] theorem strict_insert (l : TxsList Addr Hash) (tx : Transaction Addr Hash) :
    (l.insert tx).strict = l.strict := rfl

@[simp] theorem strict_forward (l : TxsList Addr Hash) (n : ℕ) : (l.forward n).2.strict = l.strict := rfl

@[simp] theorem strict_cap (l : TxsList Addr Hash) (n : ℕ) : (l.cap n).2.strict = l.strict := rfl

@[simp] theorem strict_cap_if (c : Prop) [Decidable c] (l : TxsList Addr Hash) (n : ℕ) :
    (if c then l.cap n else ([], l)).2.strict = l.strict := by
  split <;> rfl

@[simp] theorem strict_ready (l : TxsList Addr Hash) (n : ℕ) : (l.ready n).2.strict = l.strict := rfl

@[simp] theorem strict_filter (l : TxsList Addr Hash) (c g : ℕ) : (l.filter c g).2.2.strict = l.strict := by
  unfold filter
  split
  · rfl
  · dsimp only
    split
    · rfl
    · split <;> rfl

@[simp] theorem strict_remove (l : TxsList Addr Hash) (tx : Transaction Addr Hash) :
    (l.remove tx).2.2.strict = l.strict := by
  unfold remove
  dsimp only
  split
  · rfl
  · split <;> rfl

/-- A list that is not strict invalidates nothing when it filters. -/
theorem filter_invalids_of_not_strict {l : TxsList Addr Hash} (h : l.strict = false) (c g : ℕ) :
    (l.filter c g).2.1 = [] := by
  unfold filter
  split
  · rfl
  · dsimp only
    split
    · rfl
    · rw [if_neg (by simp [h])]

/-- A list that is not strict invalidates nothing when it removes. -/
theorem remove_invalids_of_not_strict {l : TxsList Addr Hash} (h : l.strict = false) (tx : Transaction Addr Hash) :
    (l.remove tx).2.1 = [] := by
  unfold remove
  dsimp only
  split
  · rfl
  · rw [if_neg (by simp [h])]

end TxsList

end AmazeChain.Txspool
