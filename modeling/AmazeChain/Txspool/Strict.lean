import AmazeChain.Txspool.List

/-!
# Strict lists: gap-free nonces and the caps

A pending list is strict: a removal gives up every later nonce, so that what the list holds stays
executable in order.  `GapFree` says that a list holds every nonce between two of its own.  Every call but
`Add` keeps a part of the list that is `Convex` in it (it holds every transaction of the list between two
of its own), and a convex part of a gap-free list is gap-free; `Add` keeps the nonces gap-free when the new
nonce is within one of a held nonce, and not otherwise.

`Filter` and `Remove` each have one spec lemma (`filter_spec`, `remove_spec`) from which the rest follows.
The caps bound the cost and the gas of every transaction held after any run of calls (`capsBound_runCalls`),
and through them the short cut of `Filter` removes nothing it should remove.
-/

namespace AmazeChain.Txspool

variable {Addr Hash : Type}

/-- Every nonce between two held ones is held. -/
def GapFree (L : List (Transaction Addr Hash)) : Prop :=
  ∀ x ∈ L, ∀ y ∈ L, ∀ n, x.nonce ≤ n → n ≤ y.nonce → ∃ z ∈ L, z.nonce = n

/-- A part of a list that holds every transaction of the list between two of its own. -/
def Convex (K L : List (Transaction Addr Hash)) : Prop :=
  (∀ z ∈ K, z ∈ L) ∧ ∀ x ∈ K, ∀ y ∈ K, ∀ z ∈ L, x.nonce ≤ z.nonce → z.nonce ≤ y.nonce → z ∈ K

section Convex

variable {K L A B : List (Transaction Addr Hash)}

theorem GapFree.of_convex (h : GapFree L) (hK : Convex K L) : GapFree K := by
  intro x hx y hy n hxn hny
  obtain ⟨z, hz, rfl⟩ := h x (hK.1 x hx) y (hK.1 y hy) n hxn hny
  exact ⟨z, hK.2 x hx y hy z hz hxn hny, rfl⟩

/-- A filter whose test holds of every transaction between two that pass it. -/
theorem convex_filter {p : Transaction Addr Hash → Bool}
    (hp : ∀ x ∈ L, ∀ y ∈ L, ∀ z ∈ L, p x → p y → x.nonce ≤ z.nonce → z.nonce ≤ y.nonce → p z) :
    Convex (L.filter p) L := by
  refine ⟨fun z hz => (List.mem_filter.1 hz).1, fun x hx y hy z hz hxz hzy => ?_⟩
  rw [List.mem_filter] at hx hy ⊢
  exact ⟨hz, hp x hx.1 y hy.1 z hz hx.2 hy.2 hxz hzy⟩

/-- The front of a list sorted by nonce. -/
theorem convex_left (h : (A ++ B).Pairwise fun a b => a.nonce < b.nonce) : Convex A (A ++ B) := by
  refine ⟨fun z hz => List.mem_append_left B hz, fun x _ y hy z hz _ hzy => ?_⟩
  rcases List.mem_append.1 hz with hz | hz
  · exact hz
  · have := (List.pairwise_append.1 h).2.2 y hy z hz
    omega

/-- The back of a list sorted by nonce. -/
theorem convex_right (h : (A ++ B).Pairwise fun a b => a.nonce < b.nonce) : Convex B (A ++ B) := by
  refine ⟨fun z hz => List.mem_append_right A hz, fun x hx y _ z hz hxz _ => ?_⟩
  rcases List.mem_append.1 hz with hz | hz
  · have := (List.pairwise_append.1 h).2.2 z hz x hx
    omega
  · exact hz

end Convex

namespace TxsList

/-- The nonces of the list have no gap. -/
def Contiguous (l : TxsList Addr Hash) : Prop := GapFree l.flatten

/-- The caps bound the cost and the gas of every transaction of the list. -/
def CapsBound (l : TxsList Addr Hash) : Prop := ∀ x ∈ l.flatten, x.cost ≤ l.costcap ∧ x.gas ≤ l.gascap

/-- The test of `Filter`: over the gas limit, or costing more than the cost limit. -/
def overLimits (costLimit gasLimit : ℕ) (tx : Transaction Addr Hash) : Bool :=
  decide (tx.gas > gasLimit ∨ tx.cost > costLimit)

/-- The calls of the pool on a list. -/
inductive ListCall (Addr Hash : Type) where
  | add (tx : Transaction Addr Hash) (priceBump : ℕ)
  | forward (threshold : ℕ)
  | filter (costLimit gasLimit : ℕ)
  | cap (threshold : ℕ)
  | remove (tx : Transaction Addr Hash)
  | ready (start : ℕ)

/-- The list after a call. -/
def ListCall.apply : ListCall Addr Hash → TxsList Addr Hash → TxsList Addr Hash
  | .add tx priceBump, l => (l.add tx priceBump).2.2
  | .forward threshold, l => (l.forward threshold).2
  | .filter costLimit gasLimit, l => (l.filter costLimit gasLimit).2.2
  | .cap threshold, l => (l.cap threshold).2
  | .remove tx, l => (l.remove tx).2.2
  | .ready start, l => (l.ready start).2

/-- The list after a run of calls. -/
def runCalls (l : TxsList Addr Hash) (calls : List (ListCall Addr Hash)) : TxsList Addr Hash :=
  calls.foldl (fun l c => c.apply l) l

variable {l : TxsList Addr Hash}

/-! ### The lowest removed nonce -/

private theorem foldl_lowest_lt_iff (n : ℕ) :
    ∀ (L : List (Transaction Addr Hash)) (lowest : ℕ),
      L.foldl (fun lowest tx => if lowest > tx.nonce then tx.nonce else lowest) lowest < n ↔
        lowest < n ∨ ∃ r ∈ L, r.nonce < n
  | [], lowest => by simp
  | r :: L, lowest => by
    rw [List.foldl_cons, foldl_lowest_lt_iff n L]
    have hmin : (if lowest > r.nonce then r.nonce else lowest) < n ↔ lowest < n ∨ r.nonce < n := by
      split_ifs <;> omega
    rw [hmin]
    simp only [List.mem_cons, exists_eq_or_imp]
    exact or_assoc

/-- Below `2 ^ 64`, a nonce is above the lowest removed nonce when it is above a removed one. -/
theorem lowestNonce_lt_iff {removed : List (Transaction Addr Hash)} {n : ℕ} (hn : n ≤ maxUint64) :
    lowestNonce removed < n ↔ ∃ r ∈ removed, r.nonce < n := by
  rw [lowestNonce, foldl_lowest_lt_iff]
  exact or_iff_right (by omega)

theorem lowestNonce_le {removed : List (Transaction Addr Hash)} {r : Transaction Addr Hash} (hr : r ∈ removed) :
    lowestNonce removed ≤ r.nonce := by
  have := (foldl_lowest_lt_iff (r.nonce + 1) removed maxUint64).2 (.inr ⟨r, hr, Nat.lt_succ_self _⟩)
  rw [← lowestNonce] at this
  omega

/-! ### What each call keeps -/

theorem flatten_forward (t : ℕ) : (l.forward t).2.flatten = l.flatten.filter fun x => !decide (x.nonce < t) :=
  rfl

theorem flatten_cap (k : ℕ) :
    (l.cap k).2.flatten = if l.flatten.length ≤ k then l.flatten else l.flatten.take k := by
  unfold cap TxsSortedMap.cap flatten TxsSortedMap.flatten
  split <;> rfl

theorem filter_of_fits {c g : ℕ} (h : l.costcap ≤ c ∧ l.gascap ≤ g) : l.filter c g = ([], [], l) := by
  unfold filter
  rw [if_pos h]

/-- Past the short cut, `Filter` removes the transactions over the limits, strict or not. -/
theorem filter_removed {c g : ℕ} (hcut : ¬ (l.costcap ≤ c ∧ l.gascap ≤ g)) :
    (l.filter c g).1 = l.flatten.filter (overLimits c g) := by
  unfold filter
  rw [if_neg hcut]
  dsimp only [TxsSortedMap.filter, TxsSortedMap.partition]
  split
  · rename_i hnil
    exact hnil.symm
  · split <;> rfl

/-- `Filter` on a strict list whose caps exceed the limits: it removes the transactions over the limits,
invalidates the others above the lowest of those, keeps the rest and lowers the caps to the limits. -/
theorem filter_spec (hstrict : l.strict = true) {c g : ℕ} (hcut : ¬ (l.costcap ≤ c ∧ l.gascap ≤ g)) :
    (l.filter c g).1 = l.flatten.filter (overLimits c g) ∧
    (l.filter c g).2.1 = l.flatten.filter (fun x => !overLimits c g x &&
      !(l.flatten.filter (overLimits c g)).isEmpty && decide (lowestNonce (l.flatten.filter (overLimits c g)) < x.nonce)) ∧
    (l.filter c g).2.2.flatten = l.flatten.filter (fun x => !overLimits c g x &&
      ((l.flatten.filter (overLimits c g)).isEmpty || !decide (lowestNonce (l.flatten.filter (overLimits c g)) < x.nonce))) ∧
    (l.filter c g).2.2.costcap = c ∧ (l.filter c g).2.2.gascap = g := by
  refine ⟨filter_removed hcut, ?_⟩
  unfold filter
  rw [if_neg hcut]
  dsimp only [TxsSortedMap.filter, TxsSortedMap.partition]
  split
  · -- nothing is over the limits: nothing is invalidated either
    rename_i hnil
    refine ⟨?_, ?_, rfl, rfl⟩
    · rw [show l.flatten.filter (overLimits c g) = [] from hnil]
      simp
    · rw [show l.flatten.filter (overLimits c g) = [] from hnil]
      simp [overLimits, flatten, TxsSortedMap.flatten]
  · rename_i hne
    have hne' : (l.flatten.filter (overLimits c g)).isEmpty = false := by
      rw [List.isEmpty_eq_false_iff]
      exact hne
    simp only [hstrict]
    refine ⟨?_, ?_, trivial, trivial⟩
    · simp only [hne', List.filter_filter, Bool.not_false, Bool.and_true]
      exact List.filter_congr fun x _ => Bool.and_comm _ _
    · simp only [hne', List.filter_filter, Bool.false_or]
      exact List.filter_congr fun x _ => Bool.and_comm _ _

/-- `Remove` on a strict list of a nonce it holds: it gives up the later nonces and keeps the earlier. -/
theorem remove_spec (hstrict : l.strict = true) {tx : Transaction Addr Hash} (hheld : (l.txs.get tx.nonce).isSome) :
    (l.remove tx).1 = true ∧ (l.remove tx).2.1 = l.flatten.filter (fun x => decide (tx.nonce < x.nonce)) ∧
    (l.remove tx).2.2.flatten = l.flatten.filter (fun x => decide (x.nonce < tx.nonce)) ∧
    (l.remove tx).2.2.costcap = l.costcap ∧ (l.remove tx).2.2.gascap = l.gascap := by
  unfold remove TxsSortedMap.remove
  dsimp only
  simp only [hheld, if_true, Bool.not_true, Bool.false_eq_true, if_false, hstrict, true_and, and_true]
  constructor
  · -- a later nonce is not the removed one
    simp only [TxsSortedMap.filter, TxsSortedMap.partition, List.filter_filter, flatten, TxsSortedMap.flatten]
    refine List.filter_congr fun x _ => ?_
    by_cases h : tx.nonce < x.nonce
    · simp [h, Nat.ne_of_gt h]
    · simp [h]
  · simp only [TxsSortedMap.filter, TxsSortedMap.partition, List.filter_filter, flatten, TxsSortedMap.flatten]
    refine List.filter_congr fun x _ => ?_
    by_cases h : x.nonce < tx.nonce
    · simp [h, Nat.ne_of_lt h, Nat.not_lt_of_gt h]
    · by_cases he : x.nonce = tx.nonce
      · simp [he]
      · simp [h, he]
        omega

theorem remove_of_not_held {tx : Transaction Addr Hash} (h : (l.txs.get tx.nonce).isSome = false) :
    l.remove tx = (false, [], l) := by
  unfold remove TxsSortedMap.remove
  dsimp only
  simp [h]


/-! ### Gap-free nonces -/

section Contiguous

variable (hl : l.Contiguous)
include hl

theorem contiguous_forward (t : ℕ) : (l.forward t).2.Contiguous := by
  unfold Contiguous
  rw [flatten_forward]
  refine hl.of_convex (convex_filter fun x _ _ _ z _ hx _ hxz _ => ?_)
  simp only [Bool.not_eq_true', decide_eq_false_iff_not, not_lt] at hx ⊢
  omega

theorem contiguous_cap (k : ℕ) : (l.cap k).2.Contiguous := by
  unfold Contiguous
  rw [flatten_cap]
  split
  · exact hl
  · -- the `k` lowest nonces are the front of the list
    have hsorted := l.txs.sorted
    rw [← List.take_append_drop k l.txs.items] at hsorted
    have hconv := convex_left hsorted
    rw [List.take_append_drop] at hconv
    exact hl.of_convex hconv

theorem contiguous_ready (s : ℕ) : (l.ready s).2.Contiguous := by
  have happ := l.ready_append s
  have hsorted : ((l.ready s).1 ++ (l.ready s).2.flatten).Pairwise fun a b => a.nonce < b.nonce := by
    rw [happ]
    exact l.txs.sorted
  have hconv := convex_right hsorted
  rw [happ] at hconv
  exact GapFree.of_convex hl hconv

theorem contiguous_remove (hstrict : l.strict = true) (tx : Transaction Addr Hash) : (l.remove tx).2.2.Contiguous := by
  cases hheld : (l.txs.get tx.nonce).isSome with
  | false => rw [remove_of_not_held hheld]; exact hl
  | true =>
    unfold Contiguous
    rw [(remove_spec hstrict hheld).2.2.1]
    refine hl.of_convex (convex_filter fun x _ y _ z _ _ hy _ hzy => ?_)
    simp only [decide_eq_true_eq] at hy ⊢
    omega

theorem contiguous_filter (hstrict : l.strict = true) (c g : ℕ) : (l.filter c g).2.2.Contiguous := by
  by_cases hfit : l.costcap ≤ c ∧ l.gascap ≤ g
  · rw [filter_of_fits hfit]
    exact hl
  unfold Contiguous
  rw [(filter_spec hstrict hfit).2.2.1]
  refine hl.of_convex (convex_filter fun x _ y hy z hz _ hky _ hzy => ?_)
  -- a transaction between two kept ones is under the limits: otherwise it is removed, at or above the
  -- lowest removed nonce, and so at the nonce of the later kept one
  have hnot : overLimits c g z = false := by
    cases hz' : overLimits c g z with
    | false => rfl
    | true =>
      have hzr : z ∈ l.flatten.filter (overLimits c g) := List.mem_filter.2 ⟨hz, hz'⟩
      have hlow := lowestNonce_le hzr
      have hne : (l.flatten.filter (overLimits c g)).isEmpty = false := by
        rw [List.isEmpty_eq_false_iff]
        exact List.ne_nil_of_mem hzr
      simp only [hne, Bool.false_or, Bool.and_eq_true, Bool.not_eq_true', decide_eq_false_iff_not,
        not_lt] at hky
      have hyz : z = y := TxsSortedMap.eq_of_nonce_eq l.txs.sorted hz hy (by omega)
      rw [hyz, hky.1] at hz'
      exact absurd hz' Bool.false_ne_true
  rw [hnot, Bool.not_false, Bool.true_and]
  rw [Bool.and_eq_true] at hky
  rcases Bool.or_eq_true _ _ ▸ hky.2 with hem | hky
  · rw [hem, Bool.true_or]
  · simp only [Bool.not_eq_true', decide_eq_false_iff_not, not_lt] at hky
    simp only [Bool.or_eq_true, Bool.not_eq_true', decide_eq_false_iff_not, not_lt]
    exact .inr (by omega)

/-- `Add` keeps the nonces gap-free when the list is empty or the new nonce is within one of a held one. -/
theorem contiguous_add {tx : Transaction Addr Hash}
    (hnear : l.flatten = [] ∨ ∃ w ∈ l.flatten, tx.nonce ≤ w.nonce + 1 ∧ w.nonce ≤ tx.nonce + 1) (priceBump : ℕ) :
    (l.add tx priceBump).2.2.Contiguous := by
  rcases l.add_cases tx priceBump with h | h <;> rw [h]
  · exact hl
  have hmem : ∀ x, x ∈ (l.insert tx).flatten ↔ x = tx ∨ x ∈ l.flatten ∧ x.nonce ≠ tx.nonce :=
    fun x => TxsSortedMap.mem_insertByNonce l.txs.sorted
  -- a nonce other than the new one between two held ones is held by the list before
  have hold : ∀ x ∈ (l.insert tx).flatten, ∀ y ∈ (l.insert tx).flatten, ∀ n, x.nonce ≤ n → n ≤ y.nonce →
      n ≠ tx.nonce → ∃ z ∈ l.flatten, z.nonce = n := by
    intro x hx y hy n hxn hny hn
    rcases (hmem x).1 hx with hxt | ⟨hx', -⟩ <;> rcases (hmem y).1 hy with hyt | ⟨hy', -⟩
    · rw [hxt] at hxn
      rw [hyt] at hny
      omega
    · -- the new nonce is below `n`: start from the held one near it
      rw [hxt] at hxn
      rcases hnear with hnil | ⟨w, hw, hw₁, hw₂⟩
      · rw [hnil] at hy'
        cases hy'
      · rcases Nat.lt_or_ge n w.nonce with hnw | hnw
        · exact hl w hw w hw n (by omega) (by omega)
        · exact hl w hw y hy' n hnw hny
    · rw [hyt] at hny
      rcases hnear with hnil | ⟨w, hw, hw₁, hw₂⟩
      · rw [hnil] at hx'
        cases hx'
      · rcases Nat.lt_or_ge w.nonce n with hnw | hnw
        · exact hl w hw w hw n (by omega) (by omega)
        · exact hl x hx' w hw n hxn hnw
    · exact hl x hx' y hy' n hxn hny
  intro x hx y hy n hxn hny
  by_cases hn : n = tx.nonce
  · exact ⟨tx, (hmem tx).2 (.inl rfl), hn.symm⟩
  · obtain ⟨z, hz, rfl⟩ := hold x hx y hy n hxn hny hn
    exact ⟨z, (hmem z).2 (.inr ⟨hz, hn⟩), rfl⟩

end Contiguous

/-- `Add` of a nonce the list does not hold inserts it. -/
theorem add_of_not_held {tx : Transaction Addr Hash} (h : ¬ ∃ y ∈ l.flatten, y.nonce = tx.nonce) (priceBump : ℕ) :
    l.add tx priceBump = (true, none, l.insert tx) := by
  have hnone : l.txs.get tx.nonce = none := by
    rw [← Option.not_isSome_iff_eq_none]
    exact fun hs => h (overlaps_iff.1 hs)
  simp only [add, hnone]

/-- `Add` of a nonce more than one away from every held nonce leaves a gap in a list that holds any: the
nonce next to the new one, on the side of a held one, is held by neither. -/
theorem not_contiguous_add_far {tx : Transaction Addr Hash} (hne : l.flatten ≠ [])
    (hfar : ∀ w ∈ l.flatten, ¬ (tx.nonce ≤ w.nonce + 1 ∧ w.nonce ≤ tx.nonce + 1)) (priceBump : ℕ) :
    ¬ (l.add tx priceBump).2.2.Contiguous := by
  have hnot : ¬ ∃ y ∈ l.flatten, y.nonce = tx.nonce := fun ⟨y, hy, hyn⟩ => hfar y hy ⟨by omega, by omega⟩
  rw [add_of_not_held hnot]
  have hmem : ∀ x, x ∈ (l.insert tx).flatten ↔ x = tx ∨ x ∈ l.flatten ∧ x.nonce ≠ tx.nonce :=
    fun x => TxsSortedMap.mem_insertByNonce l.txs.sorted
  obtain ⟨w, hw⟩ := List.exists_mem_of_ne_nil _ hne
  have hwt : w ∈ (l.insert tx).flatten := (hmem w).2 (.inr ⟨hw, fun h => hnot ⟨w, hw, h⟩⟩)
  have htt : tx ∈ (l.insert tx).flatten := (hmem tx).2 (.inl rfl)
  have hfw := hfar w hw
  intro hgap
  -- the nonce next to the new one, towards `w`, is neither the new one nor held: a held one would be near
  rcases Nat.lt_or_ge w.nonce tx.nonce with hlt | hge
  · obtain ⟨z, hz, hzn⟩ := hgap w hwt tx htt (tx.nonce - 1) (by omega) (by omega)
    rcases (hmem z).1 hz with rfl | ⟨hz', -⟩
    · omega
    · exact hfar z hz' ⟨by omega, by omega⟩
  · obtain ⟨z, hz, hzn⟩ := hgap tx htt w hwt (tx.nonce + 1) (by omega) (by omega)
    rcases (hmem z).1 hz with rfl | ⟨hz', -⟩
    · omega
    · exact hfar z hz' ⟨by omega, by omega⟩

/-- `Remove` of a nonce the list does not hold invalidates nothing and leaves the list as it is. -/
theorem remove_of_absent {tx : Transaction Addr Hash} (h : ¬ ∃ y ∈ l.flatten, y.nonce = tx.nonce) :
    l.remove tx = (false, [], l) :=
  remove_of_not_held (Bool.eq_false_iff.2 fun hs => h (overlaps_iff.1 hs))

/-! ### The caps -/

theorem CapsBound.of_subset {l' : TxsList Addr Hash} (h : l.CapsBound) (hsub : ∀ x ∈ l'.flatten, x ∈ l.flatten)
    (hcost : l'.costcap = l.costcap) (hgas : l'.gascap = l.gascap) : l'.CapsBound := by
  intro x hx
  rw [hcost, hgas]
  exact h x (hsub x hx)

private theorem mem_of_perm_append {A B L : List (Transaction Addr Hash)} (h : (A ++ B).Perm L) {x : Transaction Addr Hash}
    (hx : x ∈ B) : x ∈ L :=
  h.subset (List.mem_append_right A hx)

theorem capsBound_new (strict : Bool) : (new strict : TxsList Addr Hash).CapsBound := by
  intro x hx
  cases hx

theorem capsBound_add (h : l.CapsBound) (tx : Transaction Addr Hash) (priceBump : ℕ) :
    (l.add tx priceBump).2.2.CapsBound := by
  rcases l.add_cases tx priceBump with hadd | hadd <;> rw [hadd]
  · exact h
  intro x hx
  rcases (TxsSortedMap.mem_insertByNonce l.txs.sorted).1 hx with rfl | ⟨hx, -⟩
  · exact ⟨le_max_right _ _, le_max_right _ _⟩
  · have := h x hx
    exact ⟨this.1.trans (le_max_left _ _), this.2.trans (le_max_left _ _)⟩

theorem capsBound_forward (h : l.CapsBound) (t : ℕ) : (l.forward t).2.CapsBound :=
  h.of_subset (fun _ hx => mem_of_perm_append (l.perm_forward t) hx) rfl rfl

theorem capsBound_cap (h : l.CapsBound) (k : ℕ) : (l.cap k).2.CapsBound :=
  h.of_subset (fun _ hx => mem_of_perm_append (l.perm_cap k) hx) rfl rfl

theorem capsBound_ready (h : l.CapsBound) (s : ℕ) : (l.ready s).2.CapsBound :=
  h.of_subset (fun _ hx => (l.ready_append s) ▸ List.mem_append_right _ hx) rfl rfl

theorem capsBound_remove (h : l.CapsBound) (tx : Transaction Addr Hash) : (l.remove tx).2.2.CapsBound := by
  cases hr : (l.remove tx).1 with
  | false =>
    rw [(remove_eq_false hr).1]
    exact h
  | true =>
    obtain ⟨x, -, hperm⟩ := perm_remove hr
    -- the caps are kept, whether the list is strict or not
    have hcaps : (l.remove tx).2.2.costcap = l.costcap ∧ (l.remove tx).2.2.gascap = l.gascap := by
      unfold remove
      dsimp only
      split
      · exact ⟨rfl, rfl⟩
      · split <;> exact ⟨rfl, rfl⟩
    refine h.of_subset (fun y hy => hperm.symm.subset ?_) hcaps.1 hcaps.2
    exact List.mem_cons_of_mem _ (List.mem_append_right _ hy)

/-- What `Filter` keeps is under the limits, unless the caps fit them and it keeps the list. -/
theorem mem_filter_kept {c g : ℕ} {x : Transaction Addr Hash} (hx : x ∈ (l.filter c g).2.2.flatten) :
    x ∈ l.flatten ∧ ((l.costcap ≤ c ∧ l.gascap ≤ g) ∨ overLimits c g x = false) := by
  have hsub := (l.perm_filter c g).subset (List.mem_append_right _ hx)
  refine ⟨hsub, ?_⟩
  by_cases hfit : l.costcap ≤ c ∧ l.gascap ≤ g
  · exact .inl hfit
  refine .inr ?_
  revert hx
  unfold filter
  rw [if_neg hfit]
  dsimp only [TxsSortedMap.filter, TxsSortedMap.partition]
  split
  · intro hx
    simpa [overLimits] using (List.mem_filter.1 hx).2
  · split
    · intro hx
      have := (List.mem_filter.1 (List.mem_filter.1 hx).1).2
      simpa [overLimits] using this
    · intro hx
      simpa [overLimits] using (List.mem_filter.1 hx).2

theorem capsBound_filter (h : l.CapsBound) (c g : ℕ) : (l.filter c g).2.2.CapsBound := by
  by_cases hfit : l.costcap ≤ c ∧ l.gascap ≤ g
  · rw [filter_of_fits hfit]
    exact h
  -- the caps are lowered to the limits, which bound what is kept
  have hcaps : (l.filter c g).2.2.costcap = c ∧ (l.filter c g).2.2.gascap = g := by
    unfold filter
    rw [if_neg hfit]
    dsimp only
    split
    · exact ⟨rfl, rfl⟩
    · split <;> exact ⟨rfl, rfl⟩
  intro x hx
  obtain ⟨-, hfit' | hover⟩ := mem_filter_kept hx
  · exact absurd hfit' hfit
  rw [hcaps.1, hcaps.2]
  simp only [overLimits, decide_eq_false_iff_not, not_or, not_lt] at hover
  exact ⟨hover.2, hover.1⟩

theorem capsBound_apply (h : l.CapsBound) : ∀ call : ListCall Addr Hash, (call.apply l).CapsBound
  | .add tx priceBump => capsBound_add h tx priceBump
  | .forward t => capsBound_forward h t
  | .filter c g => capsBound_filter h c g
  | .cap k => capsBound_cap h k
  | .remove tx => capsBound_remove h tx
  | .ready s => capsBound_ready h s

theorem capsBound_runCalls : ∀ (calls : List (ListCall Addr Hash)) {l : TxsList Addr Hash}, l.CapsBound →
    (l.runCalls calls).CapsBound
  | [], _, h => h
  | call :: calls, _, h => capsBound_runCalls calls (capsBound_apply h call)

@[simp] theorem strict_apply : ∀ call : ListCall Addr Hash, (call.apply l).strict = l.strict
  | .add tx priceBump => by
    rcases l.add_cases tx priceBump with h | h <;> simp [ListCall.apply, h]
  | .forward _ => rfl
  | .filter _ _ => strict_filter _ _ _
  | .cap _ => rfl
  | .remove _ => strict_remove _ _
  | .ready _ => rfl

@[simp] theorem strict_runCalls : ∀ (calls : List (ListCall Addr Hash)) (l : TxsList Addr Hash),
    (l.runCalls calls).strict = l.strict
  | [], _ => rfl
  | call :: calls, l => (strict_runCalls calls (call.apply l)).trans (strict_apply call)

/-! ### What `Filter` and `Remove` return -/

/-- Under the caps, `Filter` removes exactly the transactions over the limits. -/
theorem mem_filter_removed (h : l.CapsBound) (c g : ℕ) (x : Transaction Addr Hash) :
    x ∈ (l.filter c g).1 ↔ x ∈ l.flatten ∧ (g < x.gas ∨ c < x.cost) := by
  by_cases hfit : l.costcap ≤ c ∧ l.gascap ≤ g
  · -- the short cut: every transaction is under the caps, so under the limits
    rw [filter_of_fits hfit]
    refine ⟨fun hx => absurd hx List.not_mem_nil, fun ⟨hx, hover⟩ => ?_⟩
    have := h x hx
    omega
  · rw [filter_removed hfit, List.mem_filter]
    simp [overLimits, or_comm]

/-- Under the caps, a strict `Filter` invalidates exactly the transactions under the limits above one over
them, for `uint64` nonces. -/
theorem mem_filter_invalids (hstrict : l.strict = true) (h : l.CapsBound)
    (hbound : ∀ x ∈ l.flatten, x.nonce ≤ maxUint64) (c g : ℕ) (x : Transaction Addr Hash) :
    x ∈ (l.filter c g).2.1 ↔
      x ∈ l.flatten ∧ ¬ (g < x.gas ∨ c < x.cost) ∧ ∃ r ∈ l.flatten, (g < r.gas ∨ c < r.cost) ∧ r.nonce < x.nonce := by
  have hover : ∀ r : Transaction Addr Hash, overLimits c g r = true ↔ g < r.gas ∨ c < r.cost := fun r => by
    simp [overLimits]
  by_cases hfit : l.costcap ≤ c ∧ l.gascap ≤ g
  · rw [filter_of_fits hfit]
    refine ⟨fun hx => absurd hx List.not_mem_nil, fun ⟨_, _, r, hr, hrover, _⟩ => ?_⟩
    have := h r hr
    omega
  rw [(filter_spec hstrict hfit).2.1, List.mem_filter]
  simp only [Bool.and_eq_true, Bool.not_eq_true', decide_eq_true_eq]
  constructor
  · rintro ⟨hx, ⟨hnot, -⟩, hlt⟩
    obtain ⟨r, hr, hrlt⟩ := (lowestNonce_lt_iff (hbound x hx)).1 hlt
    rw [List.mem_filter, hover] at hr
    refine ⟨hx, fun hx' => ?_, r, hr.1, hr.2, hrlt⟩
    rw [← hover, hnot] at hx'
    exact Bool.false_ne_true hx'
  · rintro ⟨hx, hnot, r, hr, hrover, hrlt⟩
    have hrm : r ∈ l.flatten.filter (overLimits c g) := List.mem_filter.2 ⟨hr, (hover r).2 hrover⟩
    have hne : (l.flatten.filter (overLimits c g)).isEmpty = false := by
      rw [List.isEmpty_eq_false_iff]
      exact List.ne_nil_of_mem hrm
    refine ⟨hx, ⟨?_, hne⟩, (lowestNonce_lt_iff (hbound x hx)).2 ⟨r, hrm, hrlt⟩⟩
    cases hx' : overLimits c g x with
    | false => rfl
    | true => exact absurd ((hover x).1 hx') hnot

/-- A strict `Remove` of a held nonce invalidates exactly the later nonces. -/
theorem mem_remove_invalids (hstrict : l.strict = true) {tx : Transaction Addr Hash}
    (hheld : ∃ y ∈ l.flatten, y.nonce = tx.nonce) (x : Transaction Addr Hash) :
    x ∈ (l.remove tx).2.1 ↔ x ∈ l.flatten ∧ tx.nonce < x.nonce := by
  rw [(remove_spec hstrict (overlaps_iff.2 hheld)).2.1, List.mem_filter, decide_eq_true_eq]

/-! ### Every strict list -/

/-- On every strict list a run of calls reaches: every call but `Add` keeps the nonces gap-free, and `Add`
does for a nonce within one of a held one and leaves a gap for a nonce further from every held one; under the
caps, `Filter` removes exactly the transactions over the limits and, for `uint64` nonces, invalidates exactly
those under them above a removed one; `Remove` of a held nonce invalidates exactly the later ones, and of any
other nonce invalidates nothing and changes nothing; and the caps bound every transaction held. -/
theorem strictList_invariants (calls : List (ListCall Addr Hash)) :
    let l := (new true : TxsList Addr Hash).runCalls calls
    (l.Contiguous → (∀ t, (l.forward t).2.Contiguous) ∧ (∀ c g, (l.filter c g).2.2.Contiguous) ∧
      (∀ k, (l.cap k).2.Contiguous) ∧ (∀ tx, (l.remove tx).2.2.Contiguous) ∧ (∀ s, (l.ready s).2.Contiguous) ∧
      ∀ tx priceBump, (l.flatten = [] ∨ ∃ w ∈ l.flatten, tx.nonce ≤ w.nonce + 1 ∧ w.nonce ≤ tx.nonce + 1) →
        (l.add tx priceBump).2.2.Contiguous) ∧
    (∀ tx priceBump, l.flatten ≠ [] → (∀ w ∈ l.flatten, ¬ (tx.nonce ≤ w.nonce + 1 ∧ w.nonce ≤ tx.nonce + 1)) →
      ¬ (l.add tx priceBump).2.2.Contiguous) ∧
    (∀ c g x, x ∈ (l.filter c g).1 ↔ x ∈ l.flatten ∧ (g < x.gas ∨ c < x.cost)) ∧
    ((∀ x ∈ l.flatten, x.nonce ≤ maxUint64) → ∀ c g x, x ∈ (l.filter c g).2.1 ↔
      x ∈ l.flatten ∧ ¬ (g < x.gas ∨ c < x.cost) ∧ ∃ r ∈ l.flatten, (g < r.gas ∨ c < r.cost) ∧ r.nonce < x.nonce) ∧
    (∀ tx, (∃ y ∈ l.flatten, y.nonce = tx.nonce) → ∀ x, x ∈ (l.remove tx).2.1 ↔ x ∈ l.flatten ∧ tx.nonce < x.nonce) ∧
    (∀ tx, (¬ ∃ y ∈ l.flatten, y.nonce = tx.nonce) → l.remove tx = (false, [], l)) ∧
    l.CapsBound := by
  intro l
  have hstrict : l.strict = true := strict_runCalls calls _
  have hcaps : l.CapsBound := capsBound_runCalls calls (capsBound_new true)
  refine ⟨fun hl => ⟨contiguous_forward hl, contiguous_filter hl hstrict, contiguous_cap hl,
    contiguous_remove hl hstrict, contiguous_ready hl, fun tx priceBump hnear => contiguous_add hl hnear priceBump⟩,
    fun tx priceBump hne hfar => not_contiguous_add_far hne hfar priceBump,
    mem_filter_removed hcaps, fun hbound => mem_filter_invalids hstrict hcaps hbound,
    fun tx hheld => mem_remove_invalids hstrict hheld, fun tx habsent => remove_of_absent habsent, hcaps⟩

/-- A legacy transaction of a nonce, at price `1` and gas `21000`. -/
def nonceTx (n : ℕ) : Transaction ℕ ℕ := ⟨.legacyTx n 1 21000 none 0 [] 0 0 0, 0⟩

theorem gapFree_map_nonceTx (a k : ℕ) : GapFree ((List.range' a k).map nonceTx) := by
  intro x hx y hy n hxn hny
  obtain ⟨i, hi, rfl⟩ := List.mem_map.1 hx
  obtain ⟨j, hj, rfl⟩ := List.mem_map.1 hy
  rw [List.mem_range'_1] at hi hj
  exact ⟨nonceTx n, List.mem_map.2 ⟨n, List.mem_range'_1.2 ⟨by exact hi.1.trans hxn, by
    have : n ≤ j := hny
    omega⟩, rfl⟩, rfl⟩

theorem strictList_invariants_twoTxs :
    let l := (new true : TxsList ℕ ℕ).runCalls [.add (nonceTx 0) 10, .add (nonceTx 1) 10]
    l.Contiguous ∧ (l.forward 1).2.Contiguous ∧ (∀ x ∈ l.flatten, x.nonce ≤ maxUint64) ∧
      (∀ x, x ∈ (l.filter 0 0).2.1 ↔
        x ∈ l.flatten ∧ ¬ (0 < x.gas ∨ 0 < x.cost) ∧ ∃ r ∈ l.flatten, (0 < r.gas ∨ 0 < r.cost) ∧ r.nonce < x.nonce) ∧
      (∀ x, x ∈ (l.remove (nonceTx 0)).2.1 ↔ x ∈ l.flatten ∧ 0 < x.nonce) := by
  intro l
  have hflat : l.flatten = (List.range' 0 2).map nonceTx := rfl
  have hl : l.Contiguous := by
    unfold Contiguous
    rw [hflat]
    exact gapFree_map_nonceTx 0 2
  have hbound : ∀ x ∈ l.flatten, x.nonce ≤ maxUint64 := by
    rw [hflat]
    decide
  obtain ⟨hcont, -, -, hinv, hrem, -, -⟩ := strictList_invariants [.add (nonceTx 0) 10, .add (nonceTx 1) 10]
  exact ⟨hl, (hcont hl).1 1, hbound, hinv hbound 0 0, hrem (nonceTx 0) ⟨nonceTx 0, by rw [hflat]; decide, rfl⟩⟩

/-- An `Add` above the next nonce leaves a gap in a strict list, and a `Remove` of a nonce the list does not
hold invalidates nothing, although later nonces are held. -/
theorem strictList_add_gap_remove_absent :
    let l := (new true : TxsList ℕ ℕ).runCalls [.add (nonceTx 0) 10]
    let l' := (new true : TxsList ℕ ℕ).runCalls [.add (nonceTx 1) 10, .add (nonceTx 2) 10]
    l.Contiguous ∧ ¬ (l.add (nonceTx 2) 10).2.2.Contiguous ∧
      l'.Contiguous ∧ (l'.remove (nonceTx 0)).2.1 = [] ∧ nonceTx 1 ∈ l'.flatten := by
  intro l l'
  have hflat : (l.add (nonceTx 2) 10).2.2.flatten = [nonceTx 0, nonceTx 2] := rfl
  refine ⟨gapFree_map_nonceTx 0 1, fun hgap => ?_, gapFree_map_nonceTx 1 2, rfl, by decide⟩
  -- nonce `1` lies between the two held nonces
  unfold Contiguous at hgap
  rw [hflat] at hgap
  obtain ⟨z, hz, hn⟩ := hgap (nonceTx 0) (by decide) (nonceTx 2) (by decide) 1 (by decide) (by decide)
  simp only [List.mem_cons, List.not_mem_nil, or_false] at hz
  rcases hz with rfl | rfl <;> cases hn

end TxsList

end AmazeChain.Txspool
