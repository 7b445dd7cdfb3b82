import AmazeChain.Txspool.Reorg

/-!
# The pool's bookkeeping

The pool keeps every transaction twice: in the pending list or the queue of its account, and in the lookup
`all` under its hash.  `Bookkeeping` says the two agree: the lookup's entries are the listed transactions,
each once under its hash, with one slot each (`Indexes`), every list holds transactions of its own account,
queues are not strict, and no nonce is both pending and queued for one account (`ListsWellFormed`).

Inside a call the two copies drift apart for a while: a list operation takes transactions out of a list
before the call drops them from the lookup or puts them into another list.  The invariant is therefore
stated with the transactions `moving` between the two, and every step lemma says what one update does to
it: a list that shrinks adds what it gave up to `moving`, `pool.all.Remove` and an insertion into a list take
a transaction out of it again.  A call preserves `Bookkeeping` with nothing moving, and so does every run of
calls (`Reachable.bookkeeping`).
-/

set_option linter.unusedSectionVars false

namespace AmazeChain.Txspool

variable {P Addr Hash : Type} [DecidableEq Addr] [DecidableEq Hash]

section Indexes

variable (keccak : TxData Addr Hash → Hash)

/-- A transaction under its hash, as the lookup stores it. -/
def keyed (tx : Transaction Addr Hash) : Σ _ : Hash, Transaction Addr Hash := ⟨tx.hash keccak, tx⟩

/-- The lookup holds exactly the transactions `held`, each once under its hash, one slot each. -/
structure Indexes (t : TxLookup Addr Hash) (held : List (Transaction Addr Hash)) : Prop where
  perm : t.entries.Perm (held.map (keyed keccak))
  keysNodup : t.KeysNodup
  slots_eq : t.slots = t.entries.length

variable {keccak}

namespace Indexes

theorem new : Indexes keccak (TxLookup.new : TxLookup Addr Hash) [] where
  perm := List.Perm.refl _
  keysNodup := TxLookup.keysNodup_new
  slots_eq := rfl

theorem of_perm {t : TxLookup Addr Hash} {held held' : List (Transaction Addr Hash)} (h : Indexes keccak t held)
    (hp : held.Perm held') : Indexes keccak t held' where
  perm := h.perm.trans (hp.map _)
  keysNodup := h.keysNodup
  slots_eq := h.slots_eq

theorem hashes_nodup {t : TxLookup Addr Hash} {held : List (Transaction Addr Hash)} (h : Indexes keccak t held) :
    (held.map (·.hash keccak)).Nodup := by
  have hk := (h.perm.map Sigma.fst).nodup_iff.1 ((TxLookup.keysNodup_iff t).1 h.keysNodup)
  simpa [List.map_map, Function.comp_def, keyed] using hk

theorem mem_entries {t : TxLookup Addr Hash} {held : List (Transaction Addr Hash)} (h : Indexes keccak t held)
    {tx : Transaction Addr Hash} (hx : tx ∈ held) : keyed keccak tx ∈ t.entries :=
  h.perm.mem_iff.2 (List.mem_map_of_mem hx)

theorem get_of_mem {t : TxLookup Addr Hash} {held : List (Transaction Addr Hash)} (h : Indexes keccak t held)
    {tx : Transaction Addr Hash} (hx : tx ∈ held) : t.get (tx.hash keccak) = some tx :=
  (TxLookup.get_eq_some_iff h.keysNodup).2 (h.mem_entries hx)

theorem mem_of_get {t : TxLookup Addr Hash} {held : List (Transaction Addr Hash)} (h : Indexes keccak t held)
    {hash : Hash} {tx : Transaction Addr Hash} (hg : t.get hash = some tx) : tx ∈ held ∧ tx.hash keccak = hash := by
  have := h.perm.mem_iff.1 ((TxLookup.get_eq_some_iff h.keysNodup).1 hg)
  obtain ⟨x, hx, he⟩ := List.mem_map.1 this
  simp only [keyed, Sigma.mk.injEq, heq_eq_eq] at he
  obtain ⟨rfl, rfl⟩ := he
  exact ⟨hx, rfl⟩

theorem get_eq_none {t : TxLookup Addr Hash} {held : List (Transaction Addr Hash)} (h : Indexes keccak t held)
    {hash : Hash} : t.get hash = none ↔ ∀ tx ∈ held, tx.hash keccak ≠ hash := by
  constructor
  · intro hg tx hx he
    rw [← he, h.get_of_mem hx] at hg
    cases hg
  · intro hn
    cases hg : t.get hash with
    | none => rfl
    | some tx =>
      obtain ⟨hx, he⟩ := h.mem_of_get hg
      exact absurd he (hn tx hx)

/-- `Remove` of an indexed transaction's hash forgets exactly that transaction. -/
theorem remove {t : TxLookup Addr Hash} {tx : Transaction Addr Hash} {rest : List (Transaction Addr Hash)}
    (h : Indexes keccak t (tx :: rest)) : Indexes keccak (t.remove (tx.hash keccak)) rest := by
  have hg := h.get_of_mem List.mem_cons_self
  have hp := TxLookup.entries_remove_of_get h.keysNodup hg
  refine ⟨(hp.symm.trans h.perm).cons_inv, TxLookup.keysNodup_remove h.keysNodup _, ?_⟩
  rw [TxLookup.slots_remove_of_get hg, h.slots_eq, hp.length_eq, List.length_cons, Nat.add_sub_cancel]

/-- `Add` of a transaction under a fresh hash indexes it too. -/
theorem add {t : TxLookup Addr Hash} {held : List (Transaction Addr Hash)} (h : Indexes keccak t held)
    {tx : Transaction Addr Hash} (hf : t.get (tx.hash keccak) = none) (isLocal : Bool) :
    Indexes keccak (t.add keccak tx isLocal) (tx :: held) := by
  have hp := TxLookup.entries_add keccak hf isLocal
  refine ⟨hp.trans (h.perm.cons _), TxLookup.keysNodup_add keccak h.keysNodup hf isLocal, ?_⟩
  rw [TxLookup.slots_add, h.slots_eq, hp.length_eq, List.length_cons]

/-- `Remove` of the hash of a replaced transaction, if there is one, then `Add` of the new one, which takes
its place among the indexed transactions. -/
theorem replace {t : TxLookup Addr Hash} {held held' : List (Transaction Addr Hash)} (h : Indexes keccak t held)
    {old : Option (Transaction Addr Hash)} (hold : ∀ o ∈ old, o ∈ held) {tx : Transaction Addr Hash}
    (hf : t.get (tx.hash keccak) = none) (isLocal : Bool) (hp : (held' ++ old.toList).Perm (tx :: held)) :
    Indexes keccak ((old.elim t fun o => t.remove (o.hash keccak)).add keccak tx isLocal) held' := by
  cases old with
  | none => exact (h.add hf isLocal).of_perm (by simpa using hp.symm)
  | some o =>
    have ho := List.perm_cons_erase (hold o rfl)
    have hr := (h.of_perm ho).remove
    refine (hr.add (TxLookup.get_remove_of_get_eq_none _ hf) isLocal).of_perm ?_
    -- `o` leaves on both sides
    have h₁ : (o :: held').Perm (o :: tx :: held.erase o) :=
      (List.perm_append_singleton o held').symm.trans (hp.trans ((ho.cons tx).trans (List.Perm.swap o tx _)))
    exact h₁.cons_inv.symm

theorem remoteToLocals {t : TxLookup Addr Hash} {held : List (Transaction Addr Hash)} (h : Indexes keccak t held)
    (locals : Finset Addr) : Indexes keccak (t.remoteToLocals locals).2 held := by
  obtain ⟨hp, hn, hs⟩ := TxLookup.remoteToLocals_spec h.keysNodup locals
  exact ⟨hp.trans h.perm, hn, by rw [hs, h.slots_eq, hp.length_eq]⟩

/-- The hashes of the lookup are those of the indexed transactions. -/
theorem mem_keys_iff {t : TxLookup Addr Hash} {held : List (Transaction Addr Hash)} (h : Indexes keccak t held)
    {hash : Hash} : hash ∈ t.keys ↔ ∃ tx ∈ held, tx.hash keccak = hash := by
  rw [TxLookup.keys_eq, List.keys, (h.perm.map Sigma.fst).mem_iff, List.map_map]
  simp [keyed, Function.comp_def]

/-- No hash is both local and remote. -/
theorem locals_disjoint {t : TxLookup Addr Hash} {held : List (Transaction Addr Hash)} (h : Indexes keccak t held)
    {hash : Hash} (hl : hash ∈ t.locals) : hash ∉ t.remotes :=
  List.disjoint_of_nodup_append h.keysNodup hl

theorem held_nodup {t : TxLookup Addr Hash} {held : List (Transaction Addr Hash)} (h : Indexes keccak t held) :
    held.Nodup :=
  h.hashes_nodup.of_map _

/-- Every indexed transaction takes its slots. -/
theorem slots_eq_sum {t : TxLookup Addr Hash} {held : List (Transaction Addr Hash)} (h : Indexes keccak t held) :
    t.slots = (held.map numSlots).sum := by
  rw [h.slots_eq, h.perm.length_eq, List.length_map,
    show numSlots = fun _ : Transaction Addr Hash => 1 from funext numSlots_eq_one]
  simp

end Indexes

end Indexes

/-! ### The lists of a map, account by account -/

/-- The transactions of the lists of a map. -/
def heldIn (m : AList fun _ : Addr => TxsList Addr Hash) : List (Transaction Addr Hash) :=
  m.bag fun _ l => l.flatten

/-- The transactions of an account's list in a map, none without a list. -/
def listAt (m : AList fun _ : Addr => TxsList Addr Hash) (a : Addr) : List (Transaction Addr Hash) :=
  ((m.lookup a).map TxsList.flatten).getD []

@[simp] theorem listAt_empty (a : Addr) : listAt (∅ : AList fun _ : Addr => TxsList Addr Hash) a = [] := rfl

@[simp] theorem listAt_insert_self (m : AList fun _ : Addr => TxsList Addr Hash) (a : Addr) (l : TxsList Addr Hash) :
    listAt (m.insert a l) a = l.flatten := by
  simp [listAt, AList.lookup_insert]

theorem listAt_insert_of_ne (m : AList fun _ : Addr => TxsList Addr Hash) {a b : Addr} (h : b ≠ a)
    (l : TxsList Addr Hash) : listAt (m.insert a l) b = listAt m b := by
  simp [listAt, AList.lookup_insert_ne h]

@[simp] theorem listAt_erase_self (m : AList fun _ : Addr => TxsList Addr Hash) (a : Addr) :
    listAt (m.erase a) a = [] := by
  simp [listAt, AList.lookup_erase]

theorem listAt_erase_of_ne (m : AList fun _ : Addr => TxsList Addr Hash) {a b : Addr} (h : b ≠ a) :
    listAt (m.erase a) b = listAt m b := by
  simp [listAt, AList.lookup_erase_ne h]

theorem listAt_of_lookup {m : AList fun _ : Addr => TxsList Addr Hash} {a : Addr} {l : TxsList Addr Hash}
    (h : m.lookup a = some l) : listAt m a = l.flatten := by
  simp [listAt, h]

theorem mem_heldIn {m : AList fun _ : Addr => TxsList Addr Hash} {tx : Transaction Addr Hash} :
    tx ∈ heldIn m ↔ ∃ a, tx ∈ listAt m a := by
  unfold heldIn
  rw [AList.mem_bag]
  constructor
  · rintro ⟨a, l, hl, hx⟩
    exact ⟨a, by rwa [listAt_of_lookup hl]⟩
  · rintro ⟨a, hx⟩
    unfold listAt at hx
    cases hl : m.lookup a with
    | none => rw [hl] at hx; cases hx
    | some l => rw [hl] at hx; exact ⟨a, l, hl, hx⟩

theorem exists_lookup_of_mem_listAt {m : AList fun _ : Addr => TxsList Addr Hash} {a : Addr}
    {tx : Transaction Addr Hash} (h : tx ∈ listAt m a) : ∃ l, m.lookup a = some l ∧ tx ∈ l.flatten := by
  unfold listAt at h
  cases hl : m.lookup a with
  | none => rw [hl] at h; cases h
  | some l => rw [hl] at h; exact ⟨l, rfl, h⟩

/-- Writing a list at `a` replaces the transactions of `a`. -/
theorem heldIn_insert (m : AList fun _ : Addr => TxsList Addr Hash) (a : Addr) (l : TxsList Addr Hash) :
    (heldIn (m.insert a l) ++ listAt m a).Perm (heldIn m ++ l.flatten) := by
  unfold heldIn listAt
  cases hl : m.lookup a with
  | none =>
    rw [AList.bag_insert_of_lookup_eq_none _ hl]
    simpa using List.perm_append_comm
  | some l₀ => simpa using AList.perm_bag_insert_of_lookup (fun _ l => TxsList.flatten l) hl l

theorem heldIn_erase (m : AList fun _ : Addr => TxsList Addr Hash) (a : Addr) :
    (heldIn (m.erase a) ++ listAt m a).Perm (heldIn m) := by
  unfold heldIn listAt
  cases hl : m.lookup a with
  | none => simp [AList.erase_of_lookup_eq_none hl]
  | some l₀ => simpa using ((AList.perm_bag_erase (fun _ l => TxsList.flatten l) hl).trans List.perm_append_comm).symm

namespace TxsPool

/-- Every transaction of the pool's lists, pending ones first. -/
def held (pool : TxsPool P Addr Hash) : List (Transaction Addr Hash) := heldIn pool.pending ++ heldIn pool.queue

end TxsPool

theorem mem_held_of_pending {pool : TxsPool P Addr Hash} {a : Addr} {tx : Transaction Addr Hash}
    (h : tx ∈ listAt pool.pending a) : tx ∈ pool.held :=
  List.mem_append_left _ (mem_heldIn.2 ⟨a, h⟩)

theorem mem_held_of_queue {pool : TxsPool P Addr Hash} {a : Addr} {tx : Transaction Addr Hash}
    (h : tx ∈ listAt pool.queue a) : tx ∈ pool.held :=
  List.mem_append_right _ (mem_heldIn.2 ⟨a, h⟩)

/-- Every list holds transactions of its account, queues are not strict, and no account has a nonce both
pending and queued. -/
structure ListsWellFormed (pool : TxsPool P Addr Hash) : Prop where
  pending_sender : ∀ a, ∀ tx ∈ listAt pool.pending a, tx.sender = a
  queue_sender : ∀ a, ∀ tx ∈ listAt pool.queue a, tx.sender = a
  queue_not_strict : ∀ a l, pool.queue.lookup a = some l → l.strict = false
  nonces_apart : ∀ a, ∀ tx ∈ listAt pool.pending a, ∀ tx' ∈ listAt pool.queue a, tx.nonce ≠ tx'.nonce

/-- The lookup indexes the listed transactions and those `moving` between lists, and the lists are well
formed. -/
structure Bookkeeping (keccak : TxData Addr Hash → Hash) (pool : TxsPool P Addr Hash)
    (moving : List (Transaction Addr Hash)) : Prop where
  indexes : Indexes keccak pool.all (pool.held ++ moving)
  lists : ListsWellFormed pool

theorem flatten_getD_lookup (m : AList fun _ : Addr => TxsList Addr Hash) (a : Addr) (strict : Bool) :
    ((m.lookup a).getD (TxsList.new strict)).flatten = listAt m a := by
  unfold listAt
  cases m.lookup a <;> rfl

/-! ### Updates of one account's list -/

section Lists

variable {pool pool' : TxsPool P Addr Hash} {a : Addr} {l : TxsList Addr Hash}

theorem held_of_pending_insert (hp : pool'.pending = pool.pending.insert a l) (hq : pool'.queue = pool.queue) :
    (pool'.held ++ listAt pool.pending a).Perm (pool.held ++ l.flatten) := by
  have h := heldIn_insert pool.pending a l
  unfold TxsPool.held
  rw [hp, hq]
  rw [List.perm_iff_count] at h ⊢
  intro x
  have := h x
  simp only [List.count_append] at this ⊢
  omega

theorem held_of_queue_insert (hp : pool'.pending = pool.pending) (hq : pool'.queue = pool.queue.insert a l) :
    (pool'.held ++ listAt pool.queue a).Perm (pool.held ++ l.flatten) := by
  have h := heldIn_insert pool.queue a l
  unfold TxsPool.held
  rw [hp, hq, List.append_assoc, List.append_assoc]
  exact h.append_left _

theorem held_of_pending_erase (hp : pool'.pending = pool.pending.erase a) (hq : pool'.queue = pool.queue) :
    (pool'.held ++ listAt pool.pending a).Perm pool.held := by
  have h := heldIn_erase pool.pending a
  unfold TxsPool.held
  rw [hp, hq]
  rw [List.perm_iff_count] at h ⊢
  intro x
  have := h x
  simp only [List.count_append] at this ⊢
  omega

theorem held_of_queue_erase (hp : pool'.pending = pool.pending) (hq : pool'.queue = pool.queue.erase a) :
    (pool'.held ++ listAt pool.queue a).Perm pool.held := by
  have h := heldIn_erase pool.queue a
  unfold TxsPool.held
  rw [hp, hq, List.append_assoc]
  exact h.append_left _

namespace ListsWellFormed

theorem congr (h : ListsWellFormed pool) (hp : pool'.pending = pool.pending) (hq : pool'.queue = pool.queue) :
    ListsWellFormed pool' := by
  obtain ⟨h₁, h₂, h₃, h₄⟩ := h
  exact ⟨hp ▸ h₁, hq ▸ h₂, hq ▸ h₃, hp ▸ hq ▸ h₄⟩

/-- A pending list written at `a` holds transactions it held, or new ones of `a` whose nonce is not queued. -/
theorem of_pending_insert (h : ListsWellFormed pool) (hp : pool'.pending = pool.pending.insert a l)
    (hq : pool'.queue = pool.queue)
    (hl : ∀ x ∈ l.flatten, x ∈ listAt pool.pending a ∨ x.sender = a ∧ ∀ y ∈ listAt pool.queue a, x.nonce ≠ y.nonce) :
    ListsWellFormed pool' where
  pending_sender b x hx := by
    rw [hp] at hx
    by_cases hb : b = a
    · subst hb
      rw [listAt_insert_self] at hx
      rcases hl x hx with hx | ⟨hs, -⟩
      · exact h.pending_sender b x hx
      · exact hs
    · rw [listAt_insert_of_ne _ hb] at hx
      exact h.pending_sender b x hx
  queue_sender := hq ▸ h.queue_sender
  queue_not_strict := hq ▸ h.queue_not_strict
  nonces_apart b x hx y hy := by
    rw [hp] at hx
    rw [hq] at hy
    by_cases hb : b = a
    · subst hb
      rw [listAt_insert_self] at hx
      rcases hl x hx with hx | ⟨-, hn⟩
      · exact h.nonces_apart b x hx y hy
      · exact hn y hy
    · rw [listAt_insert_of_ne _ hb] at hx
      exact h.nonces_apart b x hx y hy

/-- A queue written at `a` is not strict and holds transactions it held, or new ones of `a` whose nonce is
not pending. -/
theorem of_queue_insert (h : ListsWellFormed pool) (hp : pool'.pending = pool.pending)
    (hq : pool'.queue = pool.queue.insert a l) (hs : l.strict = false)
    (hl : ∀ x ∈ l.flatten, x ∈ listAt pool.queue a ∨ x.sender = a ∧ ∀ y ∈ listAt pool.pending a, y.nonce ≠ x.nonce) :
    ListsWellFormed pool' where
  pending_sender := hp ▸ h.pending_sender
  queue_sender b x hx := by
    rw [hq] at hx
    by_cases hb : b = a
    · subst hb
      rw [listAt_insert_self] at hx
      rcases hl x hx with hx | ⟨hs, -⟩
      · exact h.queue_sender b x hx
      · exact hs
    · rw [listAt_insert_of_ne _ hb] at hx
      exact h.queue_sender b x hx
  queue_not_strict b l' hl' := by
    rw [hq] at hl'
    by_cases hb : b = a
    · subst hb
      rw [AList.lookup_insert] at hl'
      cases hl'
      exact hs
    · rw [AList.lookup_insert_ne hb] at hl'
      exact h.queue_not_strict b l' hl'
  nonces_apart b x hx y hy := by
    rw [hp] at hx
    rw [hq] at hy
    by_cases hb : b = a
    · subst hb
      rw [listAt_insert_self] at hy
      rcases hl y hy with hy | ⟨-, hn⟩
      · exact h.nonces_apart b x hx y hy
      · exact hn x hx
    · rw [listAt_insert_of_ne _ hb] at hy
      exact h.nonces_apart b x hx y hy

/-- A held transaction is pending or queued for its own sender. -/
theorem mem_of_held (h : ListsWellFormed pool) {tx : Transaction Addr Hash} (hx : tx ∈ pool.held) :
    tx ∈ listAt pool.pending tx.sender ∨ tx ∈ listAt pool.queue tx.sender := by
  rcases List.mem_append.1 hx with hx | hx
  · obtain ⟨b, hb⟩ := mem_heldIn.1 hx
    rw [h.pending_sender b tx hb]
    exact .inl hb
  · obtain ⟨b, hb⟩ := mem_heldIn.1 hx
    rw [h.queue_sender b tx hb]
    exact .inr hb

/-- The queue `enqueueTx` writes at an account is not strict. -/
theorem strict_getD_queue (h : ListsWellFormed pool) (a : Addr) :
    ((pool.queue.lookup a).getD (TxsList.new false)).strict = false := by
  cases hl : pool.queue.lookup a with
  | none => rfl
  | some l => exact h.queue_not_strict _ l hl

theorem of_pending_erase (h : ListsWellFormed pool) (hp : pool'.pending = pool.pending.erase a)
    (hq : pool'.queue = pool.queue) : ListsWellFormed pool' where
  pending_sender b x hx := by
    rw [hp] at hx
    by_cases hb : b = a
    · subst hb; rw [listAt_erase_self] at hx; cases hx
    · rw [listAt_erase_of_ne _ hb] at hx; exact h.pending_sender b x hx
  queue_sender := hq ▸ h.queue_sender
  queue_not_strict := hq ▸ h.queue_not_strict
  nonces_apart b x hx y hy := by
    rw [hp] at hx
    rw [hq] at hy
    by_cases hb : b = a
    · subst hb; rw [listAt_erase_self] at hx; cases hx
    · rw [listAt_erase_of_ne _ hb] at hx; exact h.nonces_apart b x hx y hy

theorem of_queue_erase (h : ListsWellFormed pool) (hp : pool'.pending = pool.pending)
    (hq : pool'.queue = pool.queue.erase a) : ListsWellFormed pool' where
  pending_sender := hp ▸ h.pending_sender
  queue_sender b x hx := by
    rw [hq] at hx
    by_cases hb : b = a
    · subst hb; rw [listAt_erase_self] at hx; cases hx
    · rw [listAt_erase_of_ne _ hb] at hx; exact h.queue_sender b x hx
  queue_not_strict b l' hl' := by
    rw [hq] at hl'
    by_cases hb : b = a
    · subst hb; rw [AList.lookup_erase] at hl'; cases hl'
    · rw [AList.lookup_erase_ne hb] at hl'; exact h.queue_not_strict b l' hl'
  nonces_apart b x hx y hy := by
    rw [hp] at hx
    rw [hq] at hy
    by_cases hb : b = a
    · subst hb; rw [listAt_erase_self] at hy; cases hy
    · rw [listAt_erase_of_ne _ hb] at hy; exact h.nonces_apart b x hx y hy

end ListsWellFormed

end Lists

/-! ### The invariant under one update -/

namespace Bookkeeping

variable {keccak : TxData Addr Hash → Hash} {pool pool' : TxsPool P Addr Hash} {moving : List (Transaction Addr Hash)}
  {a : Addr} {l : TxsList Addr Hash}

/-- The invariant reads the lookup and the lists only. -/
theorem congr (h : Bookkeeping keccak pool moving) (ha : pool'.all = pool.all) (hp : pool'.pending = pool.pending)
    (hq : pool'.queue = pool.queue) : Bookkeeping keccak pool' moving where
  indexes := by
    have : pool'.held = pool.held := by unfold TxsPool.held; rw [hp, hq]
    rw [ha, this]
    exact h.indexes
  lists := h.lists.congr hp hq

theorem of_perm (h : Bookkeeping keccak pool moving) {moving' : List (Transaction Addr Hash)}
    (hm : moving.Perm moving') : Bookkeeping keccak pool moving' :=
  ⟨h.indexes.of_perm (hm.append_left _), h.lists⟩

/-- `pool.all.Remove` of a moving transaction's hash. -/
theorem drop {tx : Transaction Addr Hash} (h : Bookkeeping keccak pool (tx :: moving))
    (ha : pool'.all = pool.all.remove (tx.hash keccak)) (hp : pool'.pending = pool.pending)
    (hq : pool'.queue = pool.queue) : Bookkeeping keccak pool' moving where
  indexes := by
    have : pool'.held = pool.held := by unfold TxsPool.held; rw [hp, hq]
    rw [ha, this]
    exact (h.indexes.of_perm List.perm_middle).remove
  lists := h.lists.congr hp hq

/-- A fold whose every step drops one hash and leaves the lists alone. -/
theorem foldl_drop (f : TxsPool P Addr Hash → Transaction Addr Hash → TxsPool P Addr Hash)
    (hf : ∀ pool tx, (f pool tx).all = pool.all.remove (tx.hash keccak) ∧ (f pool tx).pending = pool.pending ∧
      (f pool tx).queue = pool.queue) :
    ∀ {txs : List (Transaction Addr Hash)} {pool : TxsPool P Addr Hash},
      Bookkeeping keccak pool (txs ++ moving) → Bookkeeping keccak (txs.foldl f pool) moving
  | [], _, h => h
  | tx :: txs, pool, h => by
    rw [List.foldl_cons]
    exact foldl_drop f hf (h.drop (hf pool tx).1 (hf pool tx).2.1 (hf pool tx).2.2)

/-- `pool.all.Add` of a transaction under a fresh hash, which is then moving into a list. -/
theorem addNew {tx : Transaction Addr Hash} (h : Bookkeeping keccak pool moving)
    (hf : pool.all.get (tx.hash keccak) = none) {isLocal : Bool} (ha : pool'.all = pool.all.add keccak tx isLocal)
    (hp : pool'.pending = pool.pending) (hq : pool'.queue = pool.queue) : Bookkeeping keccak pool' (tx :: moving) where
  indexes := by
    have : pool'.held = pool.held := by unfold TxsPool.held; rw [hp, hq]
    rw [ha, this]
    exact (h.indexes.add hf isLocal).of_perm List.perm_middle.symm
  lists := h.lists.congr hp hq

theorem remoteToLocals (h : Bookkeeping keccak pool moving) {locals : Finset Addr}
    (ha : pool'.all = (pool.all.remoteToLocals locals).2) (hp : pool'.pending = pool.pending)
    (hq : pool'.queue = pool.queue) : Bookkeeping keccak pool' moving where
  indexes := by
    have : pool'.held = pool.held := by unfold TxsPool.held; rw [hp, hq]
    rw [ha, this]
    exact h.indexes.remoteToLocals locals
  lists := h.lists.congr hp hq

/-- Writing a pending list at `a` that gives up `removed` and takes `added` in. -/
theorem pending_insert (added removed : List (Transaction Addr Hash)) (h : Bookkeeping keccak pool (added ++ moving))
    (ha : pool'.all = pool.all) (hp : pool'.pending = pool.pending.insert a l) (hq : pool'.queue = pool.queue)
    (hl : (l.flatten ++ removed).Perm (added ++ listAt pool.pending a)) (hs : ∀ x ∈ added, x.sender = a)
    (hn : ∀ x ∈ added, ∀ y ∈ listAt pool.queue a, x.nonce ≠ y.nonce) :
    Bookkeeping keccak pool' (removed ++ moving) where
  indexes := by
    rw [ha]
    refine h.indexes.of_perm ?_
    have h₁ := held_of_pending_insert hp hq
    rw [List.perm_iff_count] at h₁ hl ⊢
    intro x
    have e₁ := h₁ x
    have e₂ := hl x
    simp only [List.count_append] at e₁ e₂ ⊢
    omega
  lists := h.lists.of_pending_insert hp hq fun x hx => by
    rcases List.mem_append.1 (hl.mem_iff.1 (List.mem_append_left _ hx)) with hx | hx
    · exact .inr ⟨hs x hx, hn x hx⟩
    · exact .inl hx

/-- Writing a queue at `a` that is not strict, gives up `removed` and takes `added` in. -/
theorem queue_insert (added removed : List (Transaction Addr Hash)) (h : Bookkeeping keccak pool (added ++ moving))
    (ha : pool'.all = pool.all) (hp : pool'.pending = pool.pending) (hq : pool'.queue = pool.queue.insert a l)
    (hstrict : l.strict = false) (hl : (l.flatten ++ removed).Perm (added ++ listAt pool.queue a))
    (hs : ∀ x ∈ added, x.sender = a) (hn : ∀ x ∈ added, ∀ y ∈ listAt pool.pending a, y.nonce ≠ x.nonce) :
    Bookkeeping keccak pool' (removed ++ moving) where
  indexes := by
    rw [ha]
    refine h.indexes.of_perm ?_
    have h₁ := held_of_queue_insert hp hq
    rw [List.perm_iff_count] at h₁ hl ⊢
    intro x
    have e₁ := h₁ x
    have e₂ := hl x
    simp only [List.count_append] at e₁ e₂ ⊢
    omega
  lists := h.lists.of_queue_insert hp hq hstrict fun x hx => by
    rcases List.mem_append.1 (hl.mem_iff.1 (List.mem_append_left _ hx)) with hx | hx
    · exact .inr ⟨hs x hx, hn x hx⟩
    · exact .inl hx

/-- Writing a pending list at `a` that takes in `tx`, new to the lookup, in place of `old`, while the lookup
forgets `old` and adds `tx`. -/
theorem pending_replace (h : Bookkeeping keccak pool moving) {tx : Transaction Addr Hash}
    {old : Option (Transaction Addr Hash)} {isLocal : Bool} (hf : pool.all.get (tx.hash keccak) = none)
    (hold : ∀ o ∈ old, o ∈ listAt pool.pending a)
    (ha : pool'.all = (old.elim pool.all fun o => pool.all.remove (o.hash keccak)).add keccak tx isLocal)
    (hp : pool'.pending = pool.pending.insert a l) (hq : pool'.queue = pool.queue)
    (hl : (l.flatten ++ old.toList).Perm (tx :: listAt pool.pending a)) (hs : tx.sender = a)
    (hn : ∀ y ∈ listAt pool.queue a, tx.nonce ≠ y.nonce) : Bookkeeping keccak pool' moving where
  indexes := by
    rw [ha]
    refine h.indexes.replace (fun o ho => List.mem_append_left _ (mem_held_of_pending (hold o ho))) hf isLocal ?_
    have h₁ := held_of_pending_insert hp hq
    rw [List.perm_iff_count] at h₁ hl ⊢
    intro x
    have e₁ := h₁ x
    have e₂ := hl x
    simp only [List.count_append, List.count_cons] at e₁ e₂ ⊢
    omega
  lists := h.lists.of_pending_insert hp hq fun x hx => by
    rcases List.mem_cons.1 (hl.mem_iff.1 (List.mem_append_left _ hx)) with rfl | hx
    · exact .inr ⟨hs, hn⟩
    · exact .inl hx

/-- Writing a queue at `a` that takes in `tx`, new to the lookup, in place of `old`, while the lookup forgets
`old` and adds `tx`. -/
theorem queue_replace (h : Bookkeeping keccak pool moving) {tx : Transaction Addr Hash}
    {old : Option (Transaction Addr Hash)} {isLocal : Bool} (hf : pool.all.get (tx.hash keccak) = none)
    (hold : ∀ o ∈ old, o ∈ listAt pool.queue a)
    (ha : pool'.all = (old.elim pool.all fun o => pool.all.remove (o.hash keccak)).add keccak tx isLocal)
    (hp : pool'.pending = pool.pending) (hq : pool'.queue = pool.queue.insert a l) (hstrict : l.strict = false)
    (hl : (l.flatten ++ old.toList).Perm (tx :: listAt pool.queue a)) (hs : tx.sender = a)
    (hn : ∀ y ∈ listAt pool.pending a, y.nonce ≠ tx.nonce) : Bookkeeping keccak pool' moving where
  indexes := by
    rw [ha]
    refine h.indexes.replace (fun o ho => List.mem_append_left _ (mem_held_of_queue (hold o ho))) hf isLocal ?_
    have h₁ := held_of_queue_insert hp hq
    rw [List.perm_iff_count] at h₁ hl ⊢
    intro x
    have e₁ := h₁ x
    have e₂ := hl x
    simp only [List.count_append, List.count_cons] at e₁ e₂ ⊢
    omega
  lists := h.lists.of_queue_insert hp hq hstrict fun x hx => by
    rcases List.mem_cons.1 (hl.mem_iff.1 (List.mem_append_left _ hx)) with rfl | hx
    · exact .inr ⟨hs, hn⟩
    · exact .inl hx

/-- Writing back a pending list without the transactions `removed`, which start moving. -/
theorem pending_shrink {l₀ : TxsList Addr Hash} (removed : List (Transaction Addr Hash))
    (h : Bookkeeping keccak pool moving) (hl₀ : pool.pending.lookup a = some l₀) (ha : pool'.all = pool.all)
    (hp : pool'.pending = pool.pending.insert a l) (hq : pool'.queue = pool.queue)
    (hperm : (removed ++ l.flatten).Perm l₀.flatten) : Bookkeeping keccak pool' (removed ++ moving) :=
  h.pending_insert [] removed ha hp hq
    (by rw [List.nil_append, listAt_of_lookup hl₀]; exact List.perm_append_comm.trans hperm) (by simp) (by simp)

/-- Writing back a queue without the transactions `removed`, which start moving. -/
theorem queue_shrink {l₀ : TxsList Addr Hash} (removed : List (Transaction Addr Hash))
    (h : Bookkeeping keccak pool moving) (hl₀ : pool.queue.lookup a = some l₀) (ha : pool'.all = pool.all)
    (hp : pool'.pending = pool.pending) (hq : pool'.queue = pool.queue.insert a l) (hs : l.strict = l₀.strict)
    (hperm : (removed ++ l.flatten).Perm l₀.flatten) : Bookkeeping keccak pool' (removed ++ moving) :=
  h.queue_insert [] removed ha hp hq (hs ▸ h.lists.queue_not_strict a l₀ hl₀)
    (by rw [List.nil_append, listAt_of_lookup hl₀]; exact List.perm_append_comm.trans hperm) (by simp) (by simp)

theorem pending_erase (h : Bookkeeping keccak pool moving) (ha : pool'.all = pool.all)
    (hp : pool'.pending = pool.pending.erase a) (hq : pool'.queue = pool.queue) :
    Bookkeeping keccak pool' (listAt pool.pending a ++ moving) where
  indexes := by
    rw [ha, ← List.append_assoc]
    exact h.indexes.of_perm ((held_of_pending_erase hp hq).symm.append_right _)
  lists := h.lists.of_pending_erase hp hq

theorem queue_erase (h : Bookkeeping keccak pool moving) (ha : pool'.all = pool.all)
    (hp : pool'.pending = pool.pending) (hq : pool'.queue = pool.queue.erase a) :
    Bookkeeping keccak pool' (listAt pool.queue a ++ moving) where
  indexes := by
    rw [ha, ← List.append_assoc]
    exact h.indexes.of_perm ((held_of_queue_erase hp hq).symm.append_right _)
  lists := h.lists.of_queue_erase hp hq

/-- Deleting the queue of `a` and its heartbeat once the queue is empty. -/
theorem queue_erase_of_empty (h : Bookkeeping keccak pool moving) (hl : pool.queue.lookup a = some l) :
    Bookkeeping keccak (if l.empty then
      ({ pool with queue := pool.queue.erase a, beats := pool.beats.erase a } : TxsPool P Addr Hash) else pool)
      moving := by
  split
  · rename_i hempty
    have h' : Bookkeeping keccak
        ({ pool with queue := pool.queue.erase a, beats := pool.beats.erase a } : TxsPool P Addr Hash)
        (listAt pool.queue a ++ moving) := h.queue_erase rfl rfl rfl
    rwa [listAt_of_lookup hl, TxsList.empty_iff.1 hempty, List.nil_append] at h'
  · exact h

/-- Deleting the pending list of `a` once it is empty. -/
theorem pending_erase_of_empty (h : Bookkeeping keccak pool moving) (hl : pool.pending.lookup a = some l) :
    Bookkeeping keccak (if l.empty then ({ pool with pending := pool.pending.erase a } : TxsPool P Addr Hash)
      else pool) moving := by
  split
  · rename_i hempty
    have h' : Bookkeeping keccak ({ pool with pending := pool.pending.erase a } : TxsPool P Addr Hash)
        (listAt pool.pending a ++ moving) := h.pending_erase rfl rfl rfl
    rwa [listAt_of_lookup hl, TxsList.empty_iff.1 hempty, List.nil_append] at h'
  · exact h

end Bookkeeping

end AmazeChain.Txspool
