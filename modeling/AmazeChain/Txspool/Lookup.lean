import Mathlib.Data.Finset.Basic
import AmazeChain.Lib.AListBag
import AmazeChain.Txspool.List

/-!
# The lookup of pooled transactions, the local accounts and the pending nonces

`txLookup` (`internal/txspool/txs_list.go`) holds every pooled transaction by hash, the local ones and the
remote ones in two maps, and counts the slots they take; `numSlots` sizes a transaction by its pointer, so
every transaction takes one slot.  `accountSet` is a set of addresses.  `txNoncer` (`tx_noncer.go`) answers
the next nonce of an account from its own map or, for an account it has not seen, from the state it was
made from; the source memoises that fallback value in the map, which `get` then returns, so the model reads
the fallback without storing it.

The lookup's entries, locals first, are one list of hash-transaction pairs (`TxLookup.entries`); removing
a present hash takes its pair out of that list, adding a transaction under a fresh hash puts its pair in,
and moving the remotes of local accounts to the locals only reorders it.  These three facts, with the keys
of the two maps kept apart, are all the pool's bookkeeping needs of the lookup.
-/

namespace AmazeChain.Txspool

variable {Addr Hash : Type}

/-- `txSlotSize`. -/
def txSlotSize : ℕ := 32 * 1024

/-- `txMaxSize`. -/
def txMaxSize : ℕ := 4 * txSlotSize

/-- `unsafe.Sizeof(tx)` of a `*Transaction`: the size of a pointer on a 64-bit platform. -/
def ptrSize : ℕ := 8

/-- `numSlots`: the slots a transaction takes, computed from the size of its pointer. -/
def numSlots (_tx : Transaction Addr Hash) : ℕ := (ptrSize + txSlotSize - 1) / txSlotSize

@[simp] theorem numSlots_eq_one (tx : Transaction Addr Hash) : numSlots tx = 1 := by
  simp [numSlots, ptrSize, txSlotSize]

/-- A list of transactions takes one slot for each. -/
theorem sum_numSlots : ∀ txs : List (Transaction Addr Hash), (txs.map numSlots).sum = txs.length
  | [] => rfl
  | tx :: txs => by
    rw [List.map_cons, List.sum_cons, sum_numSlots txs, numSlots_eq_one, List.length_cons, Nat.add_comm]

/-- `accountSet.containsTx`: the sender of a transaction is in the set. -/
def containsTx [DecidableEq Addr] (as : Finset Addr) (tx : Transaction Addr Hash) : Bool := tx.sender ∈ as

/-! ### The lookup -/

/-- `txLookup`: the pooled transactions by hash, local and remote ones apart, and the slots they take. -/
structure TxLookup (Addr Hash : Type) where
  slots : ℕ
  locals : AList fun _ : Hash => Transaction Addr Hash
  remotes : AList fun _ : Hash => Transaction Addr Hash

namespace TxLookup

/-- `newTxLookup`. -/
def new : TxLookup Addr Hash := ⟨0, ∅, ∅⟩

/-- The hash-transaction pairs of both maps, locals first. -/
def entries (t : TxLookup Addr Hash) : List (Σ _ : Hash, Transaction Addr Hash) :=
  t.locals.entries ++ t.remotes.entries

/-- The hashes of both maps, locals first. -/
def keys (t : TxLookup Addr Hash) : List Hash := t.locals.keys ++ t.remotes.keys

theorem keys_eq (t : TxLookup Addr Hash) : t.keys = t.entries.keys := by
  simp [keys, entries, AList.keys, List.keys]

/-- The keys of the two maps are apart and each map has no key twice. -/
def KeysNodup (t : TxLookup Addr Hash) : Prop := t.keys.Nodup

theorem keysNodup_iff (t : TxLookup Addr Hash) : t.KeysNodup ↔ (t.entries.map Sigma.fst).Nodup := by
  rw [KeysNodup, keys_eq]
  rfl

theorem keysNodup_new : (new : TxLookup Addr Hash).KeysNodup := List.nodup_nil

variable [DecidableEq Hash]

/-- `Get`: the local transaction of a hash, else the remote one. -/
def get (t : TxLookup Addr Hash) (hash : Hash) : Option (Transaction Addr Hash) :=
  match t.locals.lookup hash with
  | some tx => some tx
  | none => t.remotes.lookup hash

/-- `GetRemote`: the remote transaction of a hash. -/
def getRemote (t : TxLookup Addr Hash) (hash : Hash) : Option (Transaction Addr Hash) := t.remotes.lookup hash

/-- `Add`: store a transaction under its hash, as a local or a remote one. -/
def add (keccak : TxData Addr Hash → Hash) (t : TxLookup Addr Hash) (tx : Transaction Addr Hash)
    (isLocal : Bool) : TxLookup Addr Hash :=
  let t := { t with slots := t.slots + numSlots tx }
  if isLocal then { t with locals := t.locals.insert (tx.hash keccak) tx }
  else { t with remotes := t.remotes.insert (tx.hash keccak) tx }

/-- `Remove`: delete the transaction of a hash from both maps and give back its slots. -/
def remove (t : TxLookup Addr Hash) (hash : Hash) : TxLookup Addr Hash :=
  match t.get hash with
  | none => t
  | some tx => ⟨t.slots - numSlots tx, t.locals.erase hash, t.remotes.erase hash⟩

/-- `RemoteToLocals`: move the remote transactions of the given accounts to the locals, counting them. -/
def remoteToLocals [DecidableEq Addr] (t : TxLookup Addr Hash) (locals : Finset Addr) :
    ℕ × TxLookup Addr Hash :=
  t.remotes.entries.foldl (fun (migrated, t) e =>
    if containsTx locals e.2 then
      (migrated + 1, { t with locals := t.locals.insert e.1 e.2, remotes := t.remotes.erase e.1 })
    else (migrated, t)) (0, t)

/-! ### What the lookup operations do to its entries -/

theorem get_eq_none_iff {t : TxLookup Addr Hash} {hash : Hash} : t.get hash = none ↔ hash ∉ t.keys := by
  unfold get keys
  cases hl : t.locals.lookup hash with
  | some tx =>
    have : hash ∈ t.locals := AList.lookup_isSome.1 (by rw [hl]; rfl)
    simp [AList.mem_keys.1 this]
  | none =>
    have h₁ : hash ∉ t.locals.keys := fun h => AList.lookup_eq_none.1 hl (AList.mem_keys.2 h)
    simp only [List.mem_append, h₁, false_or, AList.lookup_eq_none, AList.mem_keys]

/-- A hash of the locals is not one of the remotes. -/
theorem lookup_remotes_eq_none {t : TxLookup Addr Hash} (hnd : t.KeysNodup) {hash : Hash}
    {tx : Transaction Addr Hash} (hl : t.locals.lookup hash = some tx) : t.remotes.lookup hash = none := by
  rw [AList.lookup_eq_none, AList.mem_keys]
  have hmem : hash ∈ t.locals.keys := AList.mem_keys.1 (AList.lookup_isSome.1 (by rw [hl]; rfl))
  exact List.disjoint_of_nodup_append hnd hmem

theorem get_eq_some_iff {t : TxLookup Addr Hash} (hnd : t.KeysNodup) {hash : Hash}
    {tx : Transaction Addr Hash} : t.get hash = some tx ↔ (⟨hash, tx⟩ : Σ _ : Hash, _) ∈ t.entries := by
  unfold get entries
  rw [List.mem_append, ← AList.mem_lookup_iff, ← AList.mem_lookup_iff]
  cases hl : t.locals.lookup hash with
  | some tx' => simp [lookup_remotes_eq_none hnd hl]
  | none =>
    simp only [Option.mem_def, reduceCtorEq, false_or]

theorem entries_remove_of_get {t : TxLookup Addr Hash} (hnd : t.KeysNodup) {hash : Hash}
    {tx : Transaction Addr Hash} (h : t.get hash = some tx) :
    t.entries.Perm (⟨hash, tx⟩ :: (t.remove hash).entries) := by
  unfold remove
  rw [h]
  unfold get at h
  unfold entries
  dsimp only
  cases hl : t.locals.lookup hash with
  | some tx' =>
    rw [hl] at h
    cases h
    rw [AList.erase_of_lookup_eq_none (lookup_remotes_eq_none hnd hl)]
    exact ((AList.perm_entries_erase hl).append_right _)
  | none =>
    rw [hl] at h
    rw [AList.erase_of_lookup_eq_none hl]
    exact ((AList.perm_entries_erase h).append_left _).trans List.perm_middle

theorem remove_of_get_eq_none {t : TxLookup Addr Hash} {hash : Hash} (h : t.get hash = none) :
    t.remove hash = t := by
  simp [remove, h]

theorem keysNodup_remove {t : TxLookup Addr Hash} (hnd : t.KeysNodup) (hash : Hash) :
    (t.remove hash).KeysNodup := by
  cases hg : t.get hash with
  | none => rwa [remove_of_get_eq_none hg]
  | some tx =>
    have := (entries_remove_of_get hnd hg).map Sigma.fst
    rw [keysNodup_iff] at hnd ⊢
    exact (List.nodup_cons.1 (this.nodup_iff.1 hnd)).2

theorem get_remove_of_get_eq_none {t : TxLookup Addr Hash} {hash : Hash} (hash' : Hash) (h : t.get hash = none) :
    (t.remove hash').get hash = none := by
  unfold remove
  split
  · exact h
  · unfold get at h ⊢
    dsimp only
    cases hl : t.locals.lookup hash with
    | some tx => rw [hl] at h; cases h
    | none =>
      rw [hl] at h
      by_cases he : hash = hash'
      · rw [he, AList.lookup_erase, AList.lookup_erase]
      · rw [AList.lookup_erase_ne he, hl, AList.lookup_erase_ne he, h]

theorem slots_remove_of_get {t : TxLookup Addr Hash} {hash : Hash} {tx : Transaction Addr Hash}
    (h : t.get hash = some tx) : (t.remove hash).slots = t.slots - 1 := by
  simp [remove, h]

section Add

variable (keccak : TxData Addr Hash → Hash)

theorem entries_add {t : TxLookup Addr Hash} {tx : Transaction Addr Hash}
    (h : t.get (tx.hash keccak) = none) (isLocal : Bool) :
    (t.add keccak tx isLocal).entries.Perm (⟨tx.hash keccak, tx⟩ :: t.entries) := by
  have hk := get_eq_none_iff.1 h
  unfold keys at hk
  rw [List.mem_append, not_or] at hk
  have hl : t.locals.lookup (tx.hash keccak) = none := AList.lookup_eq_none.2 (mt AList.mem_keys.1 hk.1)
  have hr : t.remotes.lookup (tx.hash keccak) = none := AList.lookup_eq_none.2 (mt AList.mem_keys.1 hk.2)
  unfold add entries
  cases isLocal with
  | true =>
    simp only [if_true, AList.entries_insert, List.cons_append]
    rw [List.kerase_of_notMem_keys hk.1]
  | false =>
    simp only [Bool.false_eq_true, if_false, AList.entries_insert]
    rw [List.kerase_of_notMem_keys hk.2]
    exact List.perm_middle

theorem keysNodup_add {t : TxLookup Addr Hash} (hnd : t.KeysNodup) {tx : Transaction Addr Hash}
    (h : t.get (tx.hash keccak) = none) (isLocal : Bool) : (t.add keccak tx isLocal).KeysNodup := by
  have := (entries_add keccak h isLocal).map Sigma.fst
  rw [keysNodup_iff] at hnd ⊢
  refine this.nodup_iff.2 (List.nodup_cons.2 ⟨?_, hnd⟩)
  have := get_eq_none_iff.1 h
  rwa [keys_eq] at this

@[simp] theorem slots_add (t : TxLookup Addr Hash) (tx : Transaction Addr Hash) (isLocal : Bool) :
    (t.add keccak tx isLocal).slots = t.slots + 1 := by
  unfold add
  split <;> simp

end Add

section RemoteToLocals

variable [DecidableEq Addr]

omit [DecidableEq Addr] in
/-- One step of the migration, from a remote entry of the lookup. -/
theorem remoteToLocals_step {t : TxLookup Addr Hash} (hnd : t.KeysNodup) {e : Σ _ : Hash, Transaction Addr Hash}
    (he : e ∈ t.remotes.entries) :
    let t' : TxLookup Addr Hash := { t with locals := t.locals.insert e.1 e.2, remotes := t.remotes.erase e.1 }
    t'.entries.Perm t.entries ∧ t'.KeysNodup ∧ t'.slots = t.slots := by
  intro t'
  have hr : t.remotes.lookup e.1 = some e.2 := AList.mem_lookup_iff.2 he
  have hk : e.1 ∉ t.locals.keys := by
    have hmem : e.1 ∈ t.remotes.keys := AList.mem_keys.1 (AList.lookup_isSome.1 (by rw [hr]; rfl))
    exact fun h => List.disjoint_of_nodup_append hnd h hmem
  have hperm : t'.entries.Perm t.entries := by
    change ((t.locals.insert e.1 e.2).entries ++ (t.remotes.erase e.1).entries).Perm _
    rw [AList.entries_insert, List.kerase_of_notMem_keys hk, List.cons_append]
    exact List.perm_middle.symm.trans ((AList.perm_entries_erase hr).symm.append_left _)
  refine ⟨hperm, ?_, rfl⟩
  rw [keysNodup_iff] at hnd ⊢
  exact (hperm.map Sigma.fst).nodup_iff.2 hnd

theorem remoteToLocals_spec {t : TxLookup Addr Hash} (hnd : t.KeysNodup) (locals : Finset Addr) :
    (t.remoteToLocals locals).2.entries.Perm t.entries ∧ (t.remoteToLocals locals).2.KeysNodup ∧
      (t.remoteToLocals locals).2.slots = t.slots := by
  unfold remoteToLocals
  -- the fold visits the remote entries of the starting lookup, each of which is still a remote entry of
  -- the current lookup until it is visited: the keys of the entries still to visit are apart
  suffices ∀ (l : List (Σ _ : Hash, Transaction Addr Hash)) (n : ℕ) (u : TxLookup Addr Hash),
      u.entries.Perm t.entries → u.KeysNodup → u.slots = t.slots → l.NodupKeys →
      (∀ e ∈ l, e ∈ u.remotes.entries) →
      let r := l.foldl (fun (migrated, t) e =>
        if containsTx locals e.2 then
          (migrated + 1, { t with locals := t.locals.insert e.1 e.2, remotes := t.remotes.erase e.1 })
        else (migrated, t)) (n, u)
      r.2.entries.Perm t.entries ∧ r.2.KeysNodup ∧ r.2.slots = t.slots from
    this _ 0 t (List.Perm.refl _) hnd rfl t.remotes.nodupKeys fun _ h => h
  intro l
  induction l with
  | nil => intro n u hp hn hs _ _; exact ⟨hp, hn, hs⟩
  | cons e l ih =>
    intro n u hp hn hs hlk hl
    rw [List.nodupKeys_cons] at hlk
    simp only [List.foldl_cons]
    have he : e ∈ u.remotes.entries := hl e List.mem_cons_self
    split
    · obtain ⟨hp', hn', hs'⟩ := remoteToLocals_step hn he
      refine ih _ _ (hp'.trans hp) hn' (hs'.trans hs) hlk.2 fun e' he' => ?_
      have hne : e'.1 ≠ e.1 := fun h => hlk.1 (h ▸ List.mem_keys_of_mem he')
      exact AList.mem_entries_erase_of_ne (hl e' (List.mem_cons_of_mem _ he')) hne
    · exact ih _ _ hp hn hs hlk.2 fun e' he' => hl e' (List.mem_cons_of_mem _ he')

end RemoteToLocals

end TxLookup

/-! ### The pending nonces -/

/-- `txNoncer`: the nonces the pool has assigned, and the state nonces of the accounts it has not. -/
structure TxNoncer (Addr : Type) where
  fallback : Addr → ℕ
  nonces : AList fun _ : Addr => ℕ

namespace TxNoncer

variable [DecidableEq Addr]

/-- `newTxNoncer`, over the nonces of a state. -/
def new (fallback : Addr → ℕ) : TxNoncer Addr := ⟨fallback, ∅⟩

/-- `get`. -/
def get (n : TxNoncer Addr) (addr : Addr) : ℕ := (n.nonces.lookup addr).getD (n.fallback addr)

/-- `set`. -/
def set (n : TxNoncer Addr) (addr : Addr) (nonce : ℕ) : TxNoncer Addr :=
  { n with nonces := n.nonces.insert addr nonce }

/-- `setIfLower`: lower the nonce of an account, never raise it. -/
def setIfLower (n : TxNoncer Addr) (addr : Addr) (nonce : ℕ) : TxNoncer Addr :=
  if n.get addr ≤ nonce then n else n.set addr nonce

/-- `setAll`: replace the assigned nonces. -/
def setAll (n : TxNoncer Addr) (all : AList fun _ : Addr => ℕ) : TxNoncer Addr := { n with nonces := all }

@[simp] theorem get_set_self (n : TxNoncer Addr) (addr : Addr) (nonce : ℕ) : (n.set addr nonce).get addr = nonce := by
  simp [get, set, AList.lookup_insert]

theorem get_set_of_ne (n : TxNoncer Addr) {addr a : Addr} (h : a ≠ addr) (nonce : ℕ) :
    (n.set addr nonce).get a = n.get a := by
  simp [get, set, AList.lookup_insert_ne h]

theorem get_setIfLower (n : TxNoncer Addr) (addr a : Addr) (nonce : ℕ) :
    (n.setIfLower addr nonce).get a = if a = addr then min (n.get addr) nonce else n.get a := by
  unfold setIfLower
  split_ifs with hle ha ha
  · subst ha; omega
  · rfl
  · subst ha; rw [get_set_self]; omega
  · exact get_set_of_ne n ha nonce

@[simp] theorem get_new (fallback : Addr → ℕ) (a : Addr) : (new fallback).get a = fallback a := rfl

end TxNoncer

/-- The account reads of the pool's `currentState` (`GetNonce`, `GetBalance`). -/
structure StateReader (Addr : Type) where
  getNonce : Addr → ℕ
  getBalance : Addr → ℕ

end AmazeChain.Txspool
