import AmazeChain.Txspool.Bookkeeping

/-!
# Every call of the pool keeps its books

One lemma per call of the pool: starting from a pool whose lookup indexes exactly its listed transactions,
with well formed lists, the call ends in such a pool again.  Inside a call the transactions it takes out of
a list move until the call drops them from the lookup or puts them into another list; the lemmas for the
helpers (`enqueueAll_move`, `foldl_promoteTx_move`) say how far they carry them.  `Reachable.bookkeeping`
puts the calls together: every pool reached from `NewTxsPool` by any run of calls keeps its books.
-/

set_option linter.unusedSectionVars false

namespace AmazeChain.Txspool

variable {P Addr Hash : Type} [DecidableEq Addr] [DecidableEq Hash]

/-! ### The calls that add and remove single transactions -/

namespace TxsPool

variable (env : PoolEnv P Addr Hash) {pool : TxsPool P Addr Hash} {moving : List (Transaction Addr Hash)}

theorem bookkeeping_dropAll {txs : List (Transaction Addr Hash)}
    (h : Bookkeeping env.keccak pool (txs ++ moving)) : Bookkeeping env.keccak (pool.dropAll env txs) moving :=
  Bookkeeping.foldl_drop (fun pool tx => pool.dropHash (tx.hash env.keccak)) (fun _ _ => ⟨rfl, rfl, rfl⟩) h

theorem bookkeeping_discardReplaced {old : Option (Transaction Addr Hash)}
    (h : Bookkeeping env.keccak pool (old.toList ++ moving)) :
    Bookkeeping env.keccak (pool.discardReplaced env old) moving := by
  cases old with
  | none => exact h
  | some old => exact h.drop rfl rfl rfl


/-! ### Moving transactions back to the queue -/

/-- `enqueueTx(hash, tx, false, false)` of a moving transaction whose nonce its account has neither pending
nor queued: the queue takes it in, and nothing else changes. -/
theorem enqueueTx_move {a : Addr} {tx : Transaction Addr Hash} (h : Bookkeeping env.keccak pool (tx :: moving))
    (hs : tx.sender = a) (hq : ∀ y ∈ listAt pool.queue a, y.nonce ≠ tx.nonce)
    (hp : ∀ y ∈ listAt pool.pending a, y.nonce ≠ tx.nonce) (hash : Hash) (isLocal : Bool) (now : ℕ) :
    Bookkeeping env.keccak (pool.enqueueTx env hash tx isLocal false now).1 moving ∧
      (pool.enqueueTx env hash tx isLocal false now).1.pending = pool.pending ∧
      ∀ x ∈ listAt (pool.enqueueTx env hash tx isLocal false now).1.queue a,
        x = tx ∨ x ∈ listAt pool.queue a := by
  subst hs
  have hflat := flatten_getD_lookup pool.queue tx.sender false
  have hget : ((pool.queue.lookup tx.sender).getD (TxsList.new false)).txs.get tx.nonce = none :=
    TxsSortedMap.get_eq_none_iff.2 fun x hx => hq x (hflat ▸ hx)
  have hstrict : ((pool.queue.lookup tx.sender).getD (TxsList.new false)).strict = false := by
    cases hl : pool.queue.lookup tx.sender with
    | none => rfl
    | some l => exact h.lists.queue_not_strict _ l hl
  -- with no transaction of its nonce in the queue, the insertion succeeds and replaces nothing
  obtain ⟨-, hpend, hqueue, hall⟩ :=
    enqueueTx_of_add_true env (TxsList.add_of_get_eq_none hget _) hash isLocal false now
  simp only [Bool.false_eq_true, ↓reduceIte, discardReplaced_all, Option.elim] at hall
  have hperm := TxsList.perm_insert ((pool.queue.lookup tx.sender).getD (TxsList.new false)) tx
  rw [hget, Option.toList_none, List.append_nil, hflat] at hperm
  refine ⟨?_, hpend, fun x hx => ?_⟩
  · exact h.queue_insert [tx] [] hall hpend hqueue (by rw [TxsList.strict_insert]; exact hstrict)
      (by simpa using hperm) (by simp) (by simpa using hp)
  · rw [hqueue, listAt_insert_self] at hx
    exact List.mem_cons.1 (hperm.mem_iff.1 hx)

/-- `enqueueTx(hash, tx, false, false)` never adds a hash to the lookup. -/
theorem enqueueTx_get_eq_none {h' : Hash} (hg : pool.all.get h' = none) (hash : Hash) (tx : Transaction Addr Hash)
    (isLocal : Bool) (now : ℕ) : (pool.enqueueTx env hash tx isLocal false now).1.all.get h' = none := by
  rcases TxsList.add_cases ((pool.queue.lookup tx.sender).getD (TxsList.new false)) tx pool.config.priceBump
    with hadd | hadd
  · rw [enqueueTx_of_add_false env hadd]
    exact hg
  · rw [(enqueueTx_of_add_true env hadd hash isLocal false now).2.2.2]
    simp only [Bool.false_eq_true, ↓reduceIte, discardReplaced_all]
    cases ((pool.queue.lookup tx.sender).getD (TxsList.new false)).txs.get tx.nonce with
    | none => exact hg
    | some old => exact TxLookup.get_remove_of_get_eq_none _ hg

theorem enqueueAll_get_eq_none {h' : Hash} (now : ℕ) :
    ∀ {txs : List (Transaction Addr Hash)} {pool : TxsPool P Addr Hash}, pool.all.get h' = none →
      (pool.enqueueAll env txs now).all.get h' = none
  | [], _, hg => hg
  | tx :: _, pool, hg => by
    rw [enqueueAll_cons]
    exact enqueueAll_get_eq_none now (enqueueTx_get_eq_none env hg _ tx false now)

/-- `enqueueTx(hash, tx, false, false)` of moving transactions of one account, with distinct nonces that the
account has neither pending nor queued: the queue takes them all in. -/
theorem enqueueAll_move {a : Addr} (now : ℕ) :
    ∀ {txs : List (Transaction Addr Hash)} {pool : TxsPool P Addr Hash},
      Bookkeeping env.keccak pool (txs ++ moving) → (∀ x ∈ txs, x.sender = a) → (txs.map Transaction.nonce).Nodup →
      (∀ x ∈ txs, ∀ y ∈ listAt pool.queue a, y.nonce ≠ x.nonce) →
      (∀ x ∈ txs, ∀ y ∈ listAt pool.pending a, y.nonce ≠ x.nonce) →
      Bookkeeping env.keccak (pool.enqueueAll env txs now) moving ∧ (pool.enqueueAll env txs now).pending = pool.pending
  | [], _, h, _, _, _, _ => ⟨h, rfl⟩
  | tx :: txs, pool, h, hs, hnd, hq, hp => by
    rw [enqueueAll_cons]
    obtain ⟨hn, hnd⟩ := List.nodup_cons.1 hnd
    obtain ⟨h₁, hp₁, hq₁⟩ := enqueueTx_move env h (hs tx List.mem_cons_self) (hq tx List.mem_cons_self)
      (hp tx List.mem_cons_self) (tx.hash env.keccak) false now
    -- the queue of `a` now holds `tx` too, whose nonce the later ones do not share
    have hq' : ∀ x ∈ txs, ∀ y ∈ listAt (pool.enqueueTx env (tx.hash env.keccak) tx false false now).1.queue a,
        y.nonce ≠ x.nonce := by
      intro x hx y hy
      rcases hq₁ y hy with rfl | hy
      · exact fun he => hn (he ▸ List.mem_map_of_mem hx)
      · exact hq x (List.mem_cons_of_mem _ hx) y hy
    have hp' : ∀ x ∈ txs, ∀ y ∈ listAt (pool.enqueueTx env (tx.hash env.keccak) tx false false now).1.pending a,
        y.nonce ≠ x.nonce := by
      rw [hp₁]
      exact fun x hx => hp x (List.mem_cons_of_mem _ hx)
    obtain ⟨h₂, hp₂⟩ := enqueueAll_move now h₁ (fun x hx => hs x (List.mem_cons_of_mem _ hx)) hnd hq' hp'
    exact ⟨h₂, hp₂.trans hp₁⟩

/-! ### Removing a transaction -/

/-- The end of `removeTx` for a queued transaction: `pool` is `pool₀` with the transaction's hash dropped
from the lookup, and `removeQueued` takes it out of its queue. -/
theorem bookkeeping_removeQueued {pool₀ : TxsPool P Addr Hash} {tx : Transaction Addr Hash}
    (h : Bookkeeping env.keccak pool₀ moving) (hx : tx ∈ listAt pool₀.queue tx.sender)
    (ha : pool.all = pool₀.all.remove (tx.hash env.keccak)) (hp : pool.pending = pool₀.pending)
    (hq : pool.queue = pool₀.queue) : Bookkeeping env.keccak (pool.removeQueued tx.sender tx) moving := by
  obtain ⟨future, hf, hx⟩ := exists_lookup_of_mem_listAt hx
  have hstrict := h.lists.queue_not_strict _ _ hf
  obtain ⟨-, hperm⟩ := TxsList.remove_self hx
  rw [TxsList.remove_invalids_of_not_strict hstrict, List.nil_append] at hperm
  unfold removeQueued
  rw [hq, hf]
  dsimp only
  -- the queue loses `tx`, which is then dropped from the lookup
  split
  · rename_i hempty
    rw [TxsList.empty_iff.1 hempty] at hperm
    have hv : Bookkeeping env.keccak ({ pool₀ with queue := pool₀.queue.erase tx.sender } : TxsPool P Addr Hash)
        (listAt pool₀.queue tx.sender ++ moving) := h.queue_erase rfl rfl rfl
    rw [listAt_of_lookup hf] at hv
    exact (hv.of_perm (hperm.append_right moving)).drop (by simp [ha]) (by simp [hp]) rfl
  · have hv : Bookkeeping env.keccak
        ({ pool₀ with queue := pool₀.queue.insert tx.sender (future.remove tx).2.2 } : TxsPool P Addr Hash)
        ([tx] ++ moving) :=
      h.queue_insert [] [tx] rfl rfl rfl (by rw [TxsList.strict_remove]; exact hstrict)
        (by rw [listAt_of_lookup hf, List.nil_append]; exact (List.perm_append_singleton _ _).trans hperm.symm)
        (by simp) (by simp)
    exact hv.drop (by simp [ha]) (by simp [hp]) rfl

/-- `removeTx` never adds a hash to the lookup. -/
theorem removeTx_get_eq_none {h' : Hash} (hg : pool.all.get h' = none) (hash : Hash) (outofbound : Bool)
    (now : ℕ) : (pool.removeTx env hash outofbound now).all.get h' = none := by
  unfold removeTx
  split
  · exact hg
  · dsimp only
    have h₁ : (if outofbound then (pool.dropHash hash).markRemoved env 1 else pool.dropHash hash).all.get h' =
        none := by
      split <;> simpa using TxLookup.get_remove_of_get_eq_none hash hg
    split
    · split
      · apply enqueueAll_get_eq_none
        split <;> exact h₁
      · simpa using h₁
    · simpa using h₁

/-- `removeTx` keeps the bookkeeping: the transaction of the hash leaves its list and the lookup, and a
strict pending list queues the transactions behind it again. -/
theorem bookkeeping_removeTx (h : Bookkeeping env.keccak pool []) (hash : Hash) (outofbound : Bool) (now : ℕ) :
    Bookkeeping env.keccak (pool.removeTx env hash outofbound now) [] := by
  unfold removeTx
  split
  · exact h
  rename_i tx hg
  obtain ⟨hmem, rfl⟩ := h.indexes.mem_of_get hg
  rw [List.append_nil] at hmem
  dsimp only
  -- the pool once the hash has left the lookup
  set pool₁ := (if outofbound then (pool.dropHash (tx.hash env.keccak)).markRemoved env 1
    else pool.dropHash (tx.hash env.keccak)) with hpool₁
  have ha₁ : pool₁.all = pool.all.remove (tx.hash env.keccak) := by rw [hpool₁]; split <;> simp
  have hp₁ : pool₁.pending = pool.pending := by rw [hpool₁]; split <;> simp
  have hq₁ : pool₁.queue = pool.queue := by rw [hpool₁]; split <;> simp
  rw [hp₁]
  cases hl : pool.pending.lookup tx.sender with
  | none =>
    -- no pending list: the transaction is queued
    have hx : tx ∈ listAt pool.queue tx.sender := by
      rcases h.lists.mem_of_held hmem with hx | hx
      · rw [listAt, hl] at hx; cases hx
      · exact hx
    exact bookkeeping_removeQueued env h hx ha₁ hp₁ hq₁
  | some l =>
    dsimp only
    rcases hr : l.remove tx with ⟨_ | _, invalids, l'⟩
    · -- nothing of its nonce is pending: the transaction is queued
      have hx : tx ∈ listAt pool.queue tx.sender := by
        rcases h.lists.mem_of_held hmem with hx | hx
        · rw [listAt_of_lookup hl] at hx
          have hrm := (TxsList.remove_self hx).1
          rw [hr] at hrm
          cases hrm
        · exact hx
      exact bookkeeping_removeQueued env h hx ha₁ hp₁ hq₁
    · -- the transaction of its nonce is pending, and by the nonces kept apart it is `tx` itself
      have hx : tx ∈ l.flatten := by
        obtain ⟨x, hxget, -⟩ := TxsList.perm_remove (by rw [hr])
        obtain ⟨hxmem, hxn⟩ := TxsSortedMap.get_eq_some_iff.1 hxget
        rcases h.lists.mem_of_held hmem with hx | hx
        · rwa [listAt_of_lookup hl] at hx
        · exact absurd hxn (h.lists.nonces_apart tx.sender x (by rwa [listAt_of_lookup hl]) tx hx)
      have hperm := (TxsList.remove_self hx).2
      rw [hr] at hperm
      dsimp only at hperm
      have hpend := listAt_of_lookup hl
      have hnd := TxsList.nonces_nodup_of_perm hperm
      rw [List.map_cons, List.map_append] at hnd
      have hsplit := List.nodup_append.1 (List.nodup_cons.1 hnd).2
      have hinv : ∀ x ∈ invalids, x ∈ listAt pool.pending tx.sender := fun x hx =>
        hpend ▸ hperm.mem_iff.2 (List.mem_cons_of_mem _ (List.mem_append_left _ hx))
      have hs : ∀ x ∈ invalids, x.sender = tx.sender := fun x hx =>
        h.lists.pending_sender _ x (hinv x hx)
      have hq : ∀ x ∈ invalids, ∀ y ∈ listAt pool.queue tx.sender, y.nonce ≠ x.nonce := fun x hx y hy =>
        (h.lists.nonces_apart _ x (hinv x hx) y hy).symm
      dsimp only
      -- the nonce tracker is not part of the bookkeeping
      split
      · -- the pending list is left empty and removed
        rename_i hempty
        rw [TxsList.empty_iff.1 hempty, List.append_nil] at hperm
        have hv : Bookkeeping env.keccak
            ({ pool with pending := pool.pending.erase tx.sender } : TxsPool P Addr Hash)
            (listAt pool.pending tx.sender ++ []) := h.pending_erase rfl rfl rfl
        rw [hpend] at hv
        have h₂ : Bookkeeping env.keccak
            ({ pool₁ with pending := pool.pending.erase tx.sender } : TxsPool P Addr Hash) (invalids ++ []) :=
          (hv.of_perm (hperm.append_right [])).drop (by simp [ha₁]) rfl (by simp [hq₁])
        exact (enqueueAll_move env now h₂ hs hsplit.1 (by simpa [hq₁] using hq) (by simp)).1.congr rfl rfl rfl
      · have hv : Bookkeeping env.keccak
            ({ pool with pending := pool.pending.insert tx.sender l' } : TxsPool P Addr Hash)
            ((tx :: invalids) ++ []) :=
          h.pending_insert [] (tx :: invalids) rfl rfl rfl
            (by rw [List.nil_append, hpend]; exact List.perm_append_comm.trans hperm.symm) (by simp) (by simp)
        have h₂ : Bookkeeping env.keccak
            ({ pool₁ with pending := pool.pending.insert tx.sender l' } : TxsPool P Addr Hash) (invalids ++ []) :=
          hv.drop (by simp [ha₁]) rfl (by simp [hq₁])
        have hp : ∀ x ∈ invalids, ∀ y ∈ listAt (pool.pending.insert tx.sender l') tx.sender, y.nonce ≠ x.nonce := by
          intro x hx y hy
          rw [listAt_insert_self] at hy
          exact (hsplit.2.2 _ (List.mem_map_of_mem hx) _ (List.mem_map_of_mem hy)).symm
        exact (enqueueAll_move env now h₂ hs hsplit.1 (by simpa [hq₁] using hq) hp).1.congr rfl rfl rfl

theorem bookkeeping_foldl_removeTx (outofbound : Bool) (now : ℕ) (txs : List (Transaction Addr Hash))
    (h : Bookkeeping env.keccak pool []) :
    Bookkeeping env.keccak (txs.foldl (fun pool tx => pool.removeTx env (tx.hash env.keccak) outofbound now) pool)
      [] :=
  List.foldlRecOn (motive := fun pool => Bookkeeping env.keccak pool []) txs _ h
    fun _ hp _ _ => bookkeeping_removeTx env hp _ outofbound now

theorem foldl_removeTx_get_eq_none {h' : Hash} (outofbound : Bool) (now : ℕ) (txs : List (Transaction Addr Hash))
    (hg : pool.all.get h' = none) :
    (txs.foldl (fun pool tx => pool.removeTx env (tx.hash env.keccak) outofbound now) pool).all.get h' = none :=
  List.foldlRecOn (motive := fun pool : TxsPool P Addr Hash => pool.all.get h' = none) txs _ hg
    fun _ hp _ _ => removeTx_get_eq_none env hp _ outofbound now

/-! ### Adding a transaction -/

theorem bookkeeping_makeRoom (h : Bookkeeping env.keccak pool []) (tx : Transaction Addr Hash) (isLocal : Bool)
    (now : ℕ) : Bookkeeping env.keccak (pool.makeRoom env tx isLocal now).1 [] := by
  obtain ⟨drop, pool', heq, ha, hp, hq⟩ := makeRoom_eq_foldl env pool tx isLocal now
  rw [heq]
  exact bookkeeping_foldl_removeTx env false now drop (h.congr ha hp hq)

theorem makeRoom_get_eq_none {h' : Hash} (hg : pool.all.get h' = none) (tx : Transaction Addr Hash)
    (isLocal : Bool) (now : ℕ) : (pool.makeRoom env tx isLocal now).1.all.get h' = none := by
  obtain ⟨drop, pool', heq, ha, -, -⟩ := makeRoom_eq_foldl env pool tx isLocal now
  rw [heq]
  exact foldl_removeTx_get_eq_none env false now drop (ha ▸ hg)

/-- A new pending transaction in place of one of its nonce: `replacePending`. -/
theorem bookkeeping_replacePending {tx : Transaction Addr Hash} {list : TxsList Addr Hash}
    (h : Bookkeeping env.keccak pool []) (hf : pool.all.get (tx.hash env.keccak) = none)
    (hl : pool.pending.lookup tx.sender = some list) (hov : list.overlaps tx = true) (isLocal : Bool) (now : ℕ) :
    Bookkeeping env.keccak (pool.replacePending env tx list isLocal now).1 [] := by
  rcases TxsList.add_cases list tx pool.config.priceBump with hadd | hadd
  · rw [replacePending_of_add_false env hadd]
    exact h
  · obtain ⟨-, hp, hq, ha⟩ := replacePending_of_add_true env hadd isLocal now
    have hpend := listAt_of_lookup hl
    -- the pending transaction of the nonce is not queued, so neither is the nonce
    have hn : ∀ y ∈ listAt pool.queue tx.sender, tx.nonce ≠ y.nonce := by
      obtain ⟨x, hx, hxn⟩ := TxsList.overlaps_iff.1 hov
      intro y hy
      rw [← hxn]
      exact h.lists.nonces_apart _ x (hpend ▸ hx) y hy
    refine h.pending_replace hf (fun o ho => ?_) (by rw [ha, discardReplaced_all]) hp hq ?_ rfl hn
    · rw [hpend]
      exact (TxsSortedMap.get_eq_some_iff.1 ho).1
    · rw [hpend]
      exact TxsList.perm_insert list tx

/-- `enqueueTx(hash, tx, isLocal, true)` of a transaction new to the lookup whose nonce is not pending. -/
theorem bookkeeping_enqueueTx_new {tx : Transaction Addr Hash} (h : Bookkeeping env.keccak pool [])
    (hf : pool.all.get (tx.hash env.keccak) = none) (hp : ∀ y ∈ listAt pool.pending tx.sender, y.nonce ≠ tx.nonce)
    (isLocal : Bool) (now : ℕ) :
    Bookkeeping env.keccak (pool.enqueueTx env (tx.hash env.keccak) tx isLocal true now).1 [] := by
  have hflat := flatten_getD_lookup pool.queue tx.sender false
  have hstrict := h.lists.strict_getD_queue tx.sender
  rcases TxsList.add_cases ((pool.queue.lookup tx.sender).getD (TxsList.new false)) tx pool.config.priceBump
    with hadd | hadd
  · -- refused: the queue is written back as it was
    rw [enqueueTx_of_add_false env hadd]
    exact h.queue_insert [] [] rfl rfl rfl hstrict (by simp [hflat]) (by simp) (by simp)
  · obtain ⟨-, hpend, hqueue, hall⟩ := enqueueTx_of_add_true env hadd (tx.hash env.keccak) isLocal true now
    refine h.queue_replace hf (fun o ho => ?_) (by rw [hall, if_pos rfl, discardReplaced_all]) hpend hqueue
      (by rw [TxsList.strict_insert]; exact hstrict) ?_ rfl hp
    · rw [← hflat]
      exact (TxsSortedMap.get_eq_some_iff.1 ho).1
    · rw [← hflat]
      exact TxsList.perm_insert _ tx

theorem bookkeeping_addFuture {tx : Transaction Addr Hash} (h : Bookkeeping env.keccak pool [])
    (hf : pool.all.get (tx.hash env.keccak) = none) (hp : ∀ y ∈ listAt pool.pending tx.sender, y.nonce ≠ tx.nonce)
    (local' isLocal : Bool) (now : ℕ) : Bookkeeping env.keccak (pool.addFuture env tx local' isLocal now).1 [] := by
  have he := bookkeeping_enqueueTx_new env h hf hp isLocal now
  unfold addFuture
  split
  · rename_i heq
    rw [heq] at he
    exact he
  · rename_i pool' replaced heq
    rw [heq] at he
    dsimp only
    split
    · -- the account turned local: its remote transactions move to the local part of the lookup
      have h₁ : Bookkeeping env.keccak
          ({ pool' with
              locals := insert tx.sender pool'.locals
              all := (pool'.all.remoteToLocals (insert tx.sender pool'.locals)).2 } : TxsPool P Addr Hash) [] :=
        he.remoteToLocals rfl rfl rfl
      exact h₁.congr rfl rfl rfl
    · exact he

/-- `add` keeps the bookkeeping, whichever way it goes. -/
theorem bookkeeping_add (h : Bookkeeping env.keccak pool []) (tx : Transaction Addr Hash) (local' : Bool)
    (now : ℕ) : Bookkeeping env.keccak (pool.add env tx local' now).1 [] := by
  unfold add
  split
  · exact h
  rename_i hknown
  have hf : pool.all.get (tx.hash env.keccak) = none := Option.not_isSome_iff_eq_none.1 hknown
  dsimp only
  split
  · exact h
  split
  · rename_i heq
    have hm := bookkeeping_makeRoom env h tx (local' || containsTx pool.locals tx) now
    rw [heq] at hm
    exact hm
  rename_i pool' heq
  have hm := bookkeeping_makeRoom env h tx (local' || containsTx pool.locals tx) now
  have hf' := makeRoom_get_eq_none env hf tx (local' || containsTx pool.locals tx) now
  rw [heq] at hm hf'
  dsimp only at hm hf'
  split
  · rename_i list hl
    split
    · rename_i hov
      exact bookkeeping_replacePending env hm hf' hl hov _ now
    · rename_i hov
      -- no pending transaction of its nonce: the transaction is queued
      refine bookkeeping_addFuture env hm hf' (fun y hy => ?_) local' _ now
      rw [listAt_of_lookup hl] at hy
      intro hyn
      exact hov (TxsList.overlaps_iff.2 ⟨y, hy, hyn⟩)
  · rename_i hl
    exact bookkeeping_addFuture env hm hf' (by simp [listAt, hl]) local' _ now

theorem bookkeeping_addTxsLocked (h : Bookkeeping env.keccak pool []) (txs : List (Transaction Addr Hash))
    (local' : Bool) (now : ℕ) : Bookkeeping env.keccak (pool.addTxsLocked env txs local' now).2.2 [] := by
  unfold addTxsLocked
  refine List.foldlRecOn (motive := fun acc : List (Option TxPoolError) × List Addr × TxsPool P Addr Hash =>
    Bookkeeping env.keccak acc.2.2 []) txs _ h ?_
  rintro ⟨errs, dirty, pool⟩ hp tx -
  have ha := bookkeeping_add env hp tx local' now
  dsimp only
  -- the errors and the dirty accounts are not part of the bookkeeping
  split
  · rename_i heq
    rw [heq] at ha
    exact ha
  · rename_i heq
    rw [heq] at ha
    exact ha

theorem bookkeeping_addTxs (h : Bookkeeping env.keccak pool []) (txs : List (Transaction Addr Hash))
    (local' : Bool) (now : ℕ) : Bookkeeping env.keccak (pool.addTxs env txs local' now).2.2 [] := by
  unfold addTxs
  dsimp only
  split
  · exact h
  · exact bookkeeping_addTxsLocked env h _ local' now

/-! ### Promotion -/

/-- `promoteTx` of a moving transaction of `addr` whose nonce is not queued: it goes into the pending list,
or out of the lookup when an older transaction of its nonce pays more. -/
theorem promoteTx_move {addr : Addr} {tx : Transaction Addr Hash} (h : Bookkeeping env.keccak pool (tx :: moving))
    (hs : tx.sender = addr) (hq : ∀ y ∈ listAt pool.queue addr, tx.nonce ≠ y.nonce) (now : ℕ) :
    Bookkeeping env.keccak (pool.promoteTx env addr (tx.hash env.keccak) tx now).2 moving ∧
      (pool.promoteTx env addr (tx.hash env.keccak) tx now).2.queue = pool.queue := by
  have hflat := flatten_getD_lookup pool.pending addr true
  rcases TxsList.add_cases ((pool.pending.lookup addr).getD (TxsList.new true)) tx pool.config.priceBump
    with hadd | hadd
  · -- refused: the list is written back as it was and the transaction dropped
    rw [promoteTx_of_add_false env hadd]
    have hv : Bookkeeping env.keccak
        ({ pool with pending := pool.pending.insert addr ((pool.pending.lookup addr).getD (TxsList.new true)) } :
          TxsPool P Addr Hash) ([] ++ tx :: moving) :=
      h.pending_insert [] [] rfl rfl rfl (by simp [hflat]) (by simp) (by simp)
    exact ⟨hv.drop rfl rfl rfl, rfl⟩
  · obtain ⟨-, hpend, hqueue, hall⟩ := promoteTx_of_add_true env hadd (tx.hash env.keccak) now
    have hv : Bookkeeping env.keccak
        ({ pool with
            pending := pool.pending.insert addr (((pool.pending.lookup addr).getD (TxsList.new true)).insert tx) } :
          TxsPool P Addr Hash)
        ((((pool.pending.lookup addr).getD (TxsList.new true)).txs.get tx.nonce).toList ++ moving) :=
      h.pending_insert [tx] _ rfl rfl rfl (by rw [← hflat]; exact TxsList.perm_insert _ tx)
        (by simp [hs]) (by simpa using hq)
    -- the replaced pending transaction, if any, leaves the lookup
    refine ⟨(bookkeeping_discardReplaced env hv).congr ?_ (by simp [hpend]) (by simp [hqueue]), hqueue⟩
    rw [hall, discardReplaced_all, discardReplaced_all]

/-- The promotion loop of `promoteAccount` over moving transactions of `addr` whose nonces are not queued;
the loop's step is `promoteTx` on the pool of its state, whatever else it keeps. -/
theorem foldl_promoteTx_move {β : Type} {addr : Addr} (now : ℕ)
    (f : β × TxsPool P Addr Hash → Transaction Addr Hash → β × TxsPool P Addr Hash)
    (hf : ∀ acc tx, (f acc tx).2 = (acc.2.promoteTx env addr (tx.hash env.keccak) tx now).2) :
    ∀ {txs : List (Transaction Addr Hash)} {b : β} {pool : TxsPool P Addr Hash},
      Bookkeeping env.keccak pool (txs ++ moving) → (∀ x ∈ txs, x.sender = addr) →
      (∀ x ∈ txs, ∀ y ∈ listAt pool.queue addr, x.nonce ≠ y.nonce) →
      Bookkeeping env.keccak (txs.foldl f (b, pool)).2 moving ∧ (txs.foldl f (b, pool)).2.queue = pool.queue
  | [], _, _, h, _, _ => ⟨h, rfl⟩
  | tx :: txs, b, pool, h, hs, hq => by
    rw [List.foldl_cons]
    obtain ⟨h₁, hq₁⟩ := promoteTx_move env h (hs tx List.mem_cons_self) (hq tx List.mem_cons_self) now
    rw [← hf (b, pool) tx] at h₁ hq₁
    obtain ⟨h₂, hq₂⟩ := foldl_promoteTx_move now f hf h₁ (fun x hx => hs x (List.mem_cons_of_mem _ hx))
      (by rw [hq₁]; exact fun x hx => hq x (List.mem_cons_of_mem _ hx))
    exact ⟨h₂, hq₂.trans hq₁⟩

/-- A stage of `promoteAccount` that writes the queue of `addr` back without `removed` and drops those. -/
theorem queue_shrink_dropAll {addr : Addr} {l l' : TxsList Addr Hash} {removed : List (Transaction Addr Hash)}
    (h : Bookkeeping env.keccak pool [] ∧ pool.queue.lookup addr = some l)
    (hperm : (removed ++ l'.flatten).Perm l.flatten) (hs : l'.strict = l.strict) :
    Bookkeeping env.keccak
        (({ pool with queue := pool.queue.insert addr l' } : TxsPool P Addr Hash).dropAll env removed) [] ∧
      (({ pool with queue := pool.queue.insert addr l' } : TxsPool P Addr Hash).dropAll env removed).queue.lookup
        addr = some l' :=
  ⟨bookkeeping_dropAll env (h.1.queue_shrink removed h.2 rfl rfl rfl hs hperm), by simp⟩

/-- The `Filter` stage of `promoteAccount`: a queue is not strict, so it gives up only what it drops. -/
theorem queue_filter_dropAll {addr : Addr} {l : TxsList Addr Hash}
    (h : Bookkeeping env.keccak pool [] ∧ pool.queue.lookup addr = some l) (costLimit gasLimit : ℕ) :
    Bookkeeping env.keccak (({ pool with queue := pool.queue.insert addr (l.filter costLimit gasLimit).2.2 } :
        TxsPool P Addr Hash).dropAll env (l.filter costLimit gasLimit).1) [] ∧
      (({ pool with queue := pool.queue.insert addr (l.filter costLimit gasLimit).2.2 } :
        TxsPool P Addr Hash).dropAll env (l.filter costLimit gasLimit).1).queue.lookup addr =
        some (l.filter costLimit gasLimit).2.2 := by
  have hperm := l.perm_filter costLimit gasLimit
  rw [TxsList.filter_invalids_of_not_strict (h.1.lists.queue_not_strict _ _ h.2), List.append_nil] at hperm
  exact queue_shrink_dropAll env h hperm (l.strict_filter _ _)

/-- The `Ready` stage of `promoteAccount`: the run leaves the queue and starts moving; its transactions are
of `addr` and their nonces are not left in the queue. -/
theorem queue_ready {addr : Addr} {l : TxsList Addr Hash}
    (h : Bookkeeping env.keccak pool [] ∧ pool.queue.lookup addr = some l) (start : ℕ) :
    Bookkeeping env.keccak ({ pool with queue := pool.queue.insert addr (l.ready start).2 } : TxsPool P Addr Hash)
        ((l.ready start).1 ++ []) ∧
      (∀ x ∈ (l.ready start).1, x.sender = addr) ∧
      ∀ x ∈ (l.ready start).1, ∀ y ∈ (l.ready start).2.flatten, x.nonce ≠ y.nonce := by
  have hready := l.ready_append start
  have hnd : (((l.ready start).1 ++ (l.ready start).2.flatten).map Transaction.nonce).Nodup := by
    rw [hready]
    exact l.nonces_nodup
  rw [List.map_append] at hnd
  refine ⟨h.1.queue_shrink _ h.2 rfl rfl rfl (l.strict_ready _) (by rw [hready]), fun x hx => ?_,
    fun x hx y hy => (List.nodup_append.1 hnd).2.2 _ (List.mem_map_of_mem hx) _ (List.mem_map_of_mem hy)⟩
  exact h.1.lists.queue_sender addr x (by rw [listAt_of_lookup h.2, ← hready]; exact List.mem_append_left _ hx)

theorem bookkeeping_promoteAccount {addr : Addr} {list : TxsList Addr Hash} (h : Bookkeeping env.keccak pool [])
    (hl : pool.queue.lookup addr = some list) (now : ℕ) :
    Bookkeeping env.keccak (pool.promoteAccount env addr list now).2 [] := by
  unfold promoteAccount
  dsimp -zeta only
  extract_lets p₁ p₂ p₃ p₄ p₅ p₆
  -- the stages one after the other: the transactions below the state nonce and those the account cannot
  -- pay leave the queue and the lookup
  have h₁ : Bookkeeping env.keccak p₁ [] ∧ p₁.queue.lookup addr = some _ :=
    queue_shrink_dropAll env ⟨h, hl⟩ (list.perm_forward _) (list.strict_forward _)
  have h₂ : Bookkeeping env.keccak p₂ [] ∧ p₂.queue.lookup addr = some _ :=
    queue_filter_dropAll env h₁ (p₁.currentState.getBalance addr) p₁.currentMaxGas
  -- the ready run moves into the pending list one transaction at a time
  obtain ⟨h₃, hs₃, hn₃⟩ := queue_ready env h₂ (p₂.pendingNonces.get addr)
  obtain ⟨h₄, hq₄⟩ := foldl_promoteTx_move env now
    (fun acc tx => (if (acc.2.promoteTx env addr (tx.hash env.keccak) tx now).1 then acc.1 ++ [tx] else acc.1,
      (acc.2.promoteTx env addr (tx.hash env.keccak) tx now).2)) (fun _ _ => rfl) h₃ hs₃
    (fun x hx y hy => hn₃ x hx y (by simpa using hy))
  -- a remote account's queue is capped
  have h₅ : Bookkeeping env.keccak p₄ [] ∧ p₄.queue.lookup addr = some _ :=
    queue_shrink_dropAll env ⟨h₄, by rw [hq₄]; exact AList.lookup_insert _⟩ (TxsList.perm_cap_if _ _ _)
      (TxsList.strict_cap_if _ _ _)
  have h₆ : Bookkeeping env.keccak p₅ [] := h₅.1.congr rfl rfl rfl
  have hl₆ : p₅.queue.lookup addr = some _ := h₅.2
  -- an empty queue is deleted
  exact h₆.queue_erase_of_empty hl₆

theorem bookkeeping_promoteExecutables (h : Bookkeeping env.keccak pool []) (accounts : List Addr) (now : ℕ) :
    Bookkeeping env.keccak (pool.promoteExecutables env accounts now).2 [] := by
  unfold promoteExecutables
  refine List.foldlRecOn (motive := fun acc : List (Transaction Addr Hash) × TxsPool P Addr Hash =>
    Bookkeeping env.keccak acc.2 []) accounts _ h ?_
  rintro ⟨promoted, pool⟩ hp addr -
  dsimp only
  split
  · exact hp
  · rename_i list hl
    exact bookkeeping_promoteAccount env hp hl now

/-! ### Demotion -/

/-- What a pending list `l` of `addr` gave up and the pool queues again: transactions of `addr` with distinct
nonces, none queued for `addr` and none left in the rest `l'` of the list. -/
theorem requeue_conditions {pool₀ : TxsPool P Addr Hash} {addr : Addr} {l l' : TxsList Addr Hash}
    {removed moved : List (Transaction Addr Hash)} (hw : ListsWellFormed pool₀)
    (hl : pool₀.pending.lookup addr = some l) (hperm : (removed ++ moved ++ l'.flatten).Perm l.flatten) :
    (∀ x ∈ moved, x.sender = addr) ∧ (moved.map Transaction.nonce).Nodup ∧
      (∀ x ∈ moved, ∀ y ∈ listAt pool₀.queue addr, y.nonce ≠ x.nonce) ∧
      ∀ x ∈ moved, ∀ y ∈ l'.flatten, y.nonce ≠ x.nonce := by
  have hmem : ∀ x ∈ moved, x ∈ listAt pool₀.pending addr := fun x hx => by
    rw [listAt_of_lookup hl]
    exact hperm.mem_iff.1 (List.mem_append_left _ (List.mem_append_right _ hx))
  have hnd := TxsList.nonces_nodup_of_perm hperm.symm
  rw [List.map_append, List.map_append] at hnd
  have hsplit := List.nodup_append.1 (List.nodup_append.1 hnd).1
  refine ⟨fun x hx => hw.pending_sender addr x (hmem x hx), hsplit.2.1,
    fun x hx y hy => (hw.nonces_apart addr x (hmem x hx) y hy).symm, fun x hx y hy => ?_⟩
  exact ((List.nodup_append.1 hnd).2.2 _ (List.mem_append_right _ (List.mem_map_of_mem hx)) _
    (List.mem_map_of_mem hy)).symm

/-- A stage of `demoteAccount` that writes the pending list of `addr` back without `removed` and drops
those. -/
theorem pending_shrink_dropAll {addr : Addr} {l l' : TxsList Addr Hash} {removed : List (Transaction Addr Hash)}
    (h : Bookkeeping env.keccak pool [] ∧ pool.pending.lookup addr = some l)
    (hperm : (removed ++ l'.flatten).Perm l.flatten) :
    Bookkeeping env.keccak
        (({ pool with pending := pool.pending.insert addr l' } : TxsPool P Addr Hash).dropAll env removed) [] ∧
      (({ pool with pending := pool.pending.insert addr l' } : TxsPool P Addr Hash).dropAll env removed).pending.lookup
        addr = some l' :=
  ⟨bookkeeping_dropAll env (h.1.pending_shrink removed h.2 rfl rfl rfl hperm), by simp⟩

/-- The `Filter` stage of `demoteAccount`: the unpayable transactions leave the lookup, and those behind
them in the strict list are queued again. -/
theorem pending_filter_requeue {addr : Addr} {l : TxsList Addr Hash}
    (h : Bookkeeping env.keccak pool [] ∧ pool.pending.lookup addr = some l) (costLimit gasLimit now : ℕ) :
    Bookkeeping env.keccak ((({ pool with pending := pool.pending.insert addr (l.filter costLimit gasLimit).2.2 } :
        TxsPool P Addr Hash).dropAll env (l.filter costLimit gasLimit).1).enqueueAll env
          (l.filter costLimit gasLimit).2.1 now) [] ∧
      ((({ pool with pending := pool.pending.insert addr (l.filter costLimit gasLimit).2.2 } :
        TxsPool P Addr Hash).dropAll env (l.filter costLimit gasLimit).1).enqueueAll env
          (l.filter costLimit gasLimit).2.1 now).pending.lookup addr = some (l.filter costLimit gasLimit).2.2 := by
  have hperm := l.perm_filter costLimit gasLimit
  have hv : Bookkeeping env.keccak
      ({ pool with pending := pool.pending.insert addr (l.filter costLimit gasLimit).2.2 } : TxsPool P Addr Hash)
      ((l.filter costLimit gasLimit).1 ++ ((l.filter costLimit gasLimit).2.1 ++ [])) := by
    rw [← List.append_assoc]
    exact h.1.pending_shrink _ h.2 rfl rfl rfl hperm
  obtain ⟨hs, hnd, hq, hp⟩ := requeue_conditions h.1.lists h.2 hperm
  obtain ⟨he, hpe⟩ := enqueueAll_move env now (bookkeeping_dropAll env hv) hs hnd (by simpa using hq)
    (by simpa using hp)
  exact ⟨he, by rw [hpe]; simp⟩

/-- The gap stage of `demoteAccount`: a list that does not start at the state nonce is queued whole. -/
theorem pending_gap_requeue {addr : Addr} {l : TxsList Addr Hash} (c : Prop) [Decidable c]
    (h : Bookkeeping env.keccak pool [] ∧ pool.pending.lookup addr = some l) (now : ℕ) :
    Bookkeeping env.keccak (({ pool with pending := pool.pending.insert addr (if c then l.cap 0 else ([], l)).2 } :
        TxsPool P Addr Hash).enqueueAll env (if c then l.cap 0 else ([], l)).1 now) [] ∧
      (({ pool with pending := pool.pending.insert addr (if c then l.cap 0 else ([], l)).2 } :
        TxsPool P Addr Hash).enqueueAll env (if c then l.cap 0 else ([], l)).1 now).pending.lookup addr =
        some (if c then l.cap 0 else ([], l)).2 := by
  have hperm := TxsList.perm_cap_if c l 0
  have hv : Bookkeeping env.keccak
      ({ pool with pending := pool.pending.insert addr (if c then l.cap 0 else ([], l)).2 } : TxsPool P Addr Hash)
      ((if c then l.cap 0 else ([], l)).1 ++ []) := h.1.pending_shrink _ h.2 rfl rfl rfl hperm
  have hperm' : ([] ++ (if c then l.cap 0 else ([], l)).1 ++ (if c then l.cap 0 else ([], l)).2.flatten).Perm
      l.flatten := hperm
  obtain ⟨hs, hnd, hq, hp⟩ := requeue_conditions h.1.lists h.2 hperm'
  obtain ⟨he, hpe⟩ := enqueueAll_move env now hv hs hnd (by simpa using hq) (by simpa using hp)
  exact ⟨he, by rw [hpe]; simp⟩

theorem bookkeeping_demoteAccount {addr : Addr} {list : TxsList Addr Hash} (h : Bookkeeping env.keccak pool [])
    (hl : pool.pending.lookup addr = some list) (now : ℕ) :
    Bookkeeping env.keccak (pool.demoteAccount env addr list now) [] := by
  unfold demoteAccount
  dsimp -zeta only
  extract_lets nonce p₁ p₂ p₃ p₄
  -- the transactions below the state nonce leave the pending list and the lookup
  have h₁ : Bookkeeping env.keccak p₁ [] ∧ p₁.pending.lookup addr = some _ :=
    pending_shrink_dropAll env ⟨h, hl⟩ (list.perm_forward nonce)
  -- those the account cannot pay leave too, and the later ones of the strict list are queued again
  have h₃ : Bookkeeping env.keccak p₃ [] ∧ p₃.pending.lookup addr = some _ :=
    pending_filter_requeue env h₁ (p₁.currentState.getBalance addr) p₁.currentMaxGas now
  -- a gap in front queues the whole list, and an empty list is deleted
  have h₄ : Bookkeeping env.keccak p₄ [] ∧ p₄.pending.lookup addr = some _ := pending_gap_requeue env _ h₃ now
  exact h₄.1.pending_erase_of_empty h₄.2

theorem bookkeeping_demoteUnexecutables (h : Bookkeeping env.keccak pool []) (now : ℕ) :
    Bookkeeping env.keccak (pool.demoteUnexecutables env now) [] := by
  unfold demoteUnexecutables
  refine List.foldlRecOn (motive := fun pool => Bookkeeping env.keccak pool []) _ _ h ?_
  intro pool hp addr _
  split
  · exact hp
  · rename_i list hl
    exact bookkeeping_demoteAccount env hp hl now

/-! ### Truncation -/

theorem bookkeeping_capRound (offenders : List Addr) (pending : ℕ) (h : Bookkeeping env.keccak pool []) :
    Bookkeeping env.keccak (capRound env offenders pending pool).2 [] := by
  unfold capRound
  refine List.foldlRecOn (motive := fun acc : ℕ × TxsPool P Addr Hash => Bookkeeping env.keccak acc.2 [])
    offenders _ h ?_
  rintro ⟨pending, pool⟩ hp addr -
  dsimp only
  split
  · exact hp
  · rename_i list hl
    -- the highest nonce leaves the pending list, then the lookup
    have hv : Bookkeeping env.keccak
        ({ pool with pending := pool.pending.insert addr (list.cap (list.len - 1)).2 } : TxsPool P Addr Hash)
        ((list.cap (list.len - 1)).1 ++ []) := hp.pending_shrink _ hl rfl rfl rfl (list.perm_cap _)
    exact (Bookkeeping.foldl_drop (fun pool tx => { pool.dropHash (tx.hash env.keccak) with
      pendingNonces := pool.pendingNonces.setIfLower addr tx.nonce }) (fun _ _ => ⟨rfl, rfl, rfl⟩) hv).congr
        rfl rfl rfl

theorem bookkeeping_capWhile (cond : ℕ → TxsPool P Addr Hash → Bool) (offenders : List Addr) :
    ∀ (fuel pending : ℕ) {pool : TxsPool P Addr Hash}, Bookkeeping env.keccak pool [] →
      Bookkeeping env.keccak (capWhile env cond offenders fuel pending pool).2 []
  | 0, _, _, h => h
  | fuel + 1, pending, pool, h => by
    unfold capWhile
    split
    · exact bookkeeping_capWhile cond offenders fuel _ (bookkeeping_capRound env offenders pending h)
    · exact h

theorem bookkeeping_equalizeOffenders :
    ∀ (spammers offenders : List Addr) (pending : ℕ) {pool : TxsPool P Addr Hash}, Bookkeeping env.keccak pool [] →
      Bookkeeping env.keccak (equalizeOffenders env spammers offenders pending pool).2.2 []
  | [], _, _, _, h => h
  | offender :: spammers, offenders, pending, pool, h => by
    unfold equalizeOffenders
    split
    · split
      · exact bookkeeping_equalizeOffenders spammers _ pending h
      · exact bookkeeping_equalizeOffenders spammers _ _ (bookkeeping_capWhile env _ offenders pending pending h)
    · exact h

theorem bookkeeping_truncatePending (h : Bookkeeping env.keccak pool []) :
    Bookkeeping env.keccak (pool.truncatePending env) [] := by
  unfold truncatePending
  dsimp only
  split
  · exact h
  -- the equalising rounds, then the rounds down to the account slots
  split
  · split
    · exact bookkeeping_capWhile env _ _ _ _ (bookkeeping_equalizeOffenders env _ _ _ h)
    · exact bookkeeping_equalizeOffenders env _ _ _ h
  · exact bookkeeping_equalizeOffenders env _ _ _ h

theorem bookkeeping_removeAllTxs (h : Bookkeeping env.keccak pool []) (txs : List (Transaction Addr Hash))
    (now : ℕ) : Bookkeeping env.keccak (pool.removeAllTxs env txs now) [] :=
  bookkeeping_foldl_removeTx env true now txs h

theorem bookkeeping_truncateQueueLoop (now : ℕ) :
    ∀ (drop : ℕ) (addresses : List Addr) {pool : TxsPool P Addr Hash}, Bookkeeping env.keccak pool [] →
      Bookkeeping env.keccak (truncateQueueLoop env now drop addresses pool) []
  | _, [], _, h => h
  | drop, addr :: addresses, pool, h => by
    unfold truncateQueueLoop
    split
    · split
      · exact bookkeeping_truncateQueueLoop now drop addresses h
      · split
        · exact bookkeeping_truncateQueueLoop now _ addresses (bookkeeping_removeAllTxs env h _ now)
        · exact bookkeeping_removeAllTxs env h _ now
    · exact h

theorem bookkeeping_truncateQueue (h : Bookkeeping env.keccak pool []) (now : ℕ) :
    Bookkeeping env.keccak (pool.truncateQueue env now) [] := by
  unfold truncateQueue
  dsimp only
  split
  · exact h
  · exact bookkeeping_truncateQueueLoop env now _ _ h

/-! ### Reset and the reorganisation run -/

theorem bookkeeping_reset (h : Bookkeeping env.keccak pool []) (req : ResetRequest Addr Hash) (now : ℕ) :
    Bookkeeping env.keccak (pool.reset env req now) [] := by
  unfold reset
  split
  · rename_i reinject state _ _
    dsimp only
    -- the new state, nonce tracker, gas limit and fork flags are not part of the bookkeeping
    have h₁ : Bookkeeping env.keccak
        ({ pool with
            currentState := state
            pendingNonces := TxNoncer.new state.getNonce
            currentMaxGas := req.newBlock.gasLimit } : TxsPool P Addr Hash) [] := h.congr rfl rfl rfl
    exact (bookkeeping_addTxsLocked env h₁ reinject false now).congr rfl rfl rfl
  · exact h

theorem bookkeeping_runReorg (h : Bookkeeping env.keccak pool []) (reset : Option (ResetRequest Addr Hash))
    (dirtyAccounts : Option (List Addr)) (now : ℕ) :
    Bookkeeping env.keccak (pool.runReorg env reset dirtyAccounts now).2 [] := by
  unfold runReorg
  cases reset with
  | none =>
    dsimp -zeta only
    extract_lets p₁ p₂
    have h₂ : Bookkeeping env.keccak p₂ [] :=
      bookkeeping_truncateQueue env (bookkeeping_truncatePending env (bookkeeping_promoteExecutables env h _ now)) now
    exact h₂.congr rfl rfl rfl
  | some req =>
    dsimp -zeta only
    extract_lets p₁ p₂ p₃ p₄ p₅
    have h₁ : Bookkeeping env.keccak p₁ [] := bookkeeping_reset env h req now
    have h₂ : Bookkeeping env.keccak p₂ [] :=
      bookkeeping_demoteUnexecutables env (bookkeeping_promoteExecutables env h₁ _ now) now
    -- the base fee and the pending nonces are not part of the bookkeeping
    have h₃ : Bookkeeping env.keccak p₃ [] := by
      simp only [p₃]
      split
      · exact h₂.congr rfl rfl rfl
      · exact h₂
    have h₄ : Bookkeeping env.keccak p₄ [] := h₃.congr rfl rfl rfl
    have h₅ : Bookkeeping env.keccak p₅ [] :=
      bookkeeping_truncateQueue env (bookkeeping_truncatePending env h₄) now
    exact h₅.congr rfl rfl rfl

/-- The empty pool keeps the books. -/
theorem Bookkeeping.empty {pool : TxsPool P Addr Hash} (ha : pool.all = TxLookup.new) (hp : pool.pending = ∅)
    (hq : pool.queue = ∅) : Bookkeeping env.keccak pool [] where
  indexes := by
    have : pool.held = [] := by
      unfold held heldIn
      rw [hp, hq]
      rfl
    rw [ha, this]
    exact Indexes.new
  lists := by
    refine ⟨?_, ?_, ?_, ?_⟩ <;> simp [hp, hq]

theorem bookkeeping_newTxsPool (currentBlock : Block Hash) (state : StateReader Addr) (now : ℕ) :
    Bookkeeping env.keccak (newTxsPool env currentBlock state now) [] := by
  unfold newTxsPool
  exact bookkeeping_reset env (Bookkeeping.empty env rfl rfl rfl) _ now

/-! ### Runs of calls -/

theorem bookkeeping_step (h : Bookkeeping env.keccak pool []) :
    ∀ call : PoolCall Addr Hash, Bookkeeping env.keccak (pool.step env call) []
  | .add tx local' now => bookkeeping_add env h tx local' now
  | .addTxs txs local' now => bookkeeping_addTxs env h txs local' now
  | .removeTx hash outofbound now => bookkeeping_removeTx env h hash outofbound now
  | .promoteExecutables accounts now => bookkeeping_promoteExecutables env h accounts now
  | .demoteUnexecutables now => bookkeeping_demoteUnexecutables env h now
  | .truncatePending => bookkeeping_truncatePending env h
  | .truncateQueue now => bookkeeping_truncateQueue env h now
  | .reset req now => bookkeeping_reset env h req now
  | .runReorg reset dirtyAccounts now => bookkeeping_runReorg env h reset dirtyAccounts now

end TxsPool

theorem Reachable.bookkeeping {env : PoolEnv P Addr Hash} {pool : TxsPool P Addr Hash} (h : Reachable env pool) :
    Bookkeeping env.keccak pool [] := by
  induction h with
  | newTxsPool currentBlock state now => exact TxsPool.bookkeeping_newTxsPool env currentBlock state now
  | step call _ ih => exact TxsPool.bookkeeping_step env ih call

/-- In every pool reached from `NewTxsPool`: the hashes of the lookup are those of the listed transactions,
and the lookup finds each of them under its hash; no hash is both local and remote; every transaction is in
one list only, pending or queued for its sender; no account has a nonce both pending and queued; and the
lookup's slot count is the slots of the listed transactions. -/
theorem reachable_lookup_matches_lists {env : PoolEnv P Addr Hash} {pool : TxsPool P Addr Hash}
    (h : Reachable env pool) :
    (∀ hash, hash ∈ pool.all.keys ↔ ∃ tx ∈ pool.held, tx.hash env.keccak = hash) ∧
      (∀ tx ∈ pool.held, pool.all.get (tx.hash env.keccak) = some tx) ∧
      (∀ hash, hash ∈ pool.all.locals → hash ∉ pool.all.remotes) ∧
      pool.held.Nodup ∧
      (∀ tx ∈ pool.held, tx ∈ listAt pool.pending tx.sender ∨ tx ∈ listAt pool.queue tx.sender) ∧
      (∀ a, ∀ tx ∈ listAt pool.pending a, ∀ tx' ∈ listAt pool.queue a, tx.nonce ≠ tx'.nonce) ∧
      pool.all.slots = (pool.held.map numSlots).sum := by
  have hb := h.bookkeeping
  have hi := hb.indexes
  rw [List.append_nil] at hi
  exact ⟨fun _ => hi.mem_keys_iff, fun _ hx => hi.get_of_mem hx, fun _ hl => hi.locals_disjoint hl,
    hi.held_nodup, fun _ hx => hb.lists.mem_of_held hx, hb.lists.nonces_apart, hi.slots_eq_sum⟩

/-- An environment for the examples: numbers for addresses and hashes, a transaction's nonce for its hash,
no forks, and a priced list that keeps nothing and finds nothing underpriced. -/
def exampleEnv : PoolEnv Unit ℕ ℕ where
  keccak := TxData.nonce
  chainConfig := ⟨none, none, none, none, none, none, false⟩
  calcBaseFee := fun _ => 0
  priced := ⟨(), fun _ _ _ => (), fun _ _ _ => (), fun _ _ _ => (false, ()), fun _ _ _ _ => ([], true, ()),
    fun _ _ _ => ()⟩

/-- The genesis block of the examples, and a state where every account has nonce 0 and balance 10 ^ 18. -/
def exampleGenesis : Block ℕ := ⟨0, 0, 0, 30000000⟩

def exampleState : StateReader ℕ := ⟨fun _ => 0, fun _ => 10 ^ 18⟩

/-- A legacy transfer of `value` from account 1 to account 2, at gas price 1 with the 21000 gas of a
transfer. -/
def exampleTransfer (nonce value : ℕ) : Transaction ℕ ℕ := ⟨.legacyTx nonce 1 21000 (some 2) value [] 27 1 1, 1⟩

def exampleTx : Transaction ℕ ℕ := exampleTransfer 0 1

theorem exampleTx_lookup_matches_lists :
    let pool := (newTxsPool exampleEnv exampleGenesis exampleState 0).step exampleEnv (.add exampleTx false 0)
    Reachable exampleEnv pool ∧
      ((∀ hash, hash ∈ pool.all.keys ↔ ∃ tx ∈ pool.held, tx.hash exampleEnv.keccak = hash) ∧
        (∀ tx ∈ pool.held, pool.all.get (tx.hash exampleEnv.keccak) = some tx) ∧
        (∀ hash, hash ∈ pool.all.locals → hash ∉ pool.all.remotes) ∧
        pool.held.Nodup ∧
        (∀ tx ∈ pool.held, tx ∈ listAt pool.pending tx.sender ∨ tx ∈ listAt pool.queue tx.sender) ∧
        (∀ a, ∀ tx ∈ listAt pool.pending a, ∀ tx' ∈ listAt pool.queue a, tx.nonce ≠ tx'.nonce) ∧
        pool.all.slots = (pool.held.map numSlots).sum) :=
  have hr : Reachable exampleEnv
      ((newTxsPool exampleEnv exampleGenesis exampleState 0).step exampleEnv (.add exampleTx false 0)) :=
    .step _ (.newTxsPool _ _ _)
  ⟨hr, reachable_lookup_matches_lists hr⟩

/-! ### A reorganisation that leaves a gap -/

/-- The state of a head where account 1 has sent 7 transactions, and of one where it has sent 5. -/
def nonceSevenState : StateReader ℕ := ⟨fun _ => 7, fun _ => 10 ^ 18⟩

def nonceFiveState : StateReader ℕ := ⟨fun _ => 5, fun _ => 10 ^ 18⟩

/-- A reorganisation from block 1 (hash 11) to a sibling block 1 (hash 12) whose state is
`nonceFiveState`: the abandoned block held account 1's transfers of nonces 5 and 6, the second of more
than the account now has. -/
def reorgRequest : ResetRequest ℕ ℕ :=
  ⟨some ⟨1, 11, 0, 30000000⟩, ⟨1, 12, 0, 30000000⟩,
    some ([exampleTransfer 5 1, exampleTransfer 6 (10 ^ 18)], []), some nonceFiveState⟩

/-- A new pool at nonce 7 takes account 1's transfers of nonces 7 and 8, promotes them, and then moves to
the head of `reorgRequest`. -/
def gapPool : TxsPool Unit ℕ ℕ :=
  (((newTxsPool exampleEnv exampleGenesis nonceSevenState 0).step exampleEnv
    (.addTxs [exampleTransfer 7 1, exampleTransfer 8 1] false 0)).step exampleEnv
    (.runReorg none (some [1]) 0)).step exampleEnv (.runReorg (some reorgRequest) none 0)

/-- The reset re-adds the transfer of nonce 5 and refuses that of nonce 6, which the new state cannot pay;
the promotion then moves nonce 5 into the pending list in front of 7 and 8, and the demotion only looks
for a gap at the state nonce.  The pending list of account 1 is left with the nonces 5, 7 and 8. -/
theorem reorg_reinjection_leaves_gap :
    Reachable exampleEnv gapPool ∧ gapPool.currentState.getNonce 1 = 5 ∧
      (listAt gapPool.pending 1).map Transaction.nonce = [5, 7, 8] :=
  ⟨.step _ (.step _ (.step _ (.newTxsPool _ _ _))), by decide, by decide⟩

end AmazeChain.Txspool
