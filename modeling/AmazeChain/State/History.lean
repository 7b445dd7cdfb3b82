import AmazeChain.State.PlainState
import AmazeChain.Lib.FirstChange
import AmazeChain.Lib.ListFold
import Mathlib.Data.List.AList

/-!
# The history of the plain state

`FinalizeBlockExecution` (`internal/blockhelp.go`) commits a block through `NewPlainStateWriter(.., n)`, whose
`ChangeSetWriter` (`modules/state/change_set_writer.go`) collects, beside the writes to the plain tables, the
value each changed account and slot had before the block, and then writes them: `WriteChangeSets` into the
changeset of block `n` (`AccountChangeSet`, `StorageChangeSet`) and `WriteHistory` the block `n` into the
index of every changed key (`AccountsHistory`, and `StorageHistory` by address and slot without the
incarnation).

Two readers read the state of an earlier block from these tables (`modules/state/history.go`).  `GetAsOf(key,
t)` takes the first block at or after `t` in the key's index and returns the value its changeset holds, the
value before that block; with no such block, or no entry in its changeset, it returns the plain table's value.
`NewPlainState(tx, B)` reads through `GetAsOf` at `B`, the state after block `B - 1`
(`plainStateReadAccountData_of_records`).  `NewStateHistoryReader(tx, db, n)`, the tx pool's state at its
head `n`, reads the plain tables first and `GetAsOf` at `n` only for a key the plain tables do not hold.  That
is right for a key that still holds a value after block `n`; for an account block `n` deletes, the plain table
holds nothing and `GetAsOf` at `n` returns what the changeset of block `n` holds: the account before the block
(`commitBlockWithHistory_reads_deleted_account`).

A changeset entry is kept decoded: for an account, `none` is the empty encoding of an account that did not
exist before the block, and for a slot `none` is the empty encoding of zero.  `FindByHistory` puts back the
code hash the changeset blanks, from `PlainContractCode` (`restoreCodeHash`).  The chunks of an index and the
roaring bitmaps are left out: an index is the list of its blocks, and `Seek` then `SeekInBitmap64` is the
least of them at or after the block read (`FirstChange.firstAtOrAfter`).  The maps of the `ChangeSetWriter`
are association lists, and the order `WriteChangeSets` writes their entries in does not matter.
-/

set_option linter.unusedSectionVars false

namespace AmazeChain.State

open FirstChange

variable {Addr Hash : Type}

/-- The history tables: the changesets of each block, by address and by address, incarnation and slot, and the
indices, by address and by address and slot. -/
structure HistoryDB (Addr Hash : Type) where
  accountChangeSet : ℕ → Addr → Option (Option (StateAccount Hash))
  storageChangeSet : ℕ → Addr × UInt16 × Hash → Option (Option (BitVec 256))
  accountsHistory : Addr → List ℕ
  storageHistory : Addr × Hash → List ℕ

variable [DecidableEq Addr] [DecidableEq Hash] (env : StateEnv Addr Hash)

/-- The `ChangeSetWriter` of a block: the maps of the values before the block, by address and by composite
storage key, and the addresses whose storage changed. -/
structure ChangeSetWriter (Addr Hash : Type) where
  accountChanges : AList fun _ : Addr => Option (StateAccount Hash)
  storageChanged : Addr → Bool
  storageChanges : AList fun _ : Addr × UInt16 × Hash => Option (BitVec 256)
  blockNumber : ℕ

/-- `NewChangeSetWriterPlain(db, blockNumber)`. -/
def ChangeSetWriter.new (blockNumber : ℕ) : ChangeSetWriter Addr Hash :=
  ⟨∅, fun _ => false, ∅, blockNumber⟩

/-- `IsEmptyCodeHash`: the hash of no code, or the zero hash. -/
def StateEnv.isEmptyCodeHash (codeHash : Hash) : Bool :=
  decide (codeHash = env.emptyCodeHash) || decide (codeHash = env.zeroHash)

/-- `accountsEqual`: the nonce, the balance of an initialised account and the code hash, with the two hashes
of no code alike; the incarnation is not compared. -/
def accountsEqual (a1 a2 : StateAccount Hash) : Bool :=
  a1.nonce == a2.nonce &&
    (if !a1.initialised then !a2.initialised else a2.initialised && a1.balance == a2.balance) &&
    (if env.isEmptyCodeHash a1.codeHash then env.isEmptyCodeHash a2.codeHash
      else !env.isEmptyCodeHash a2.codeHash && decide (a1.codeHash = a2.codeHash))

/-- `originalAccountData`: nothing for an account not initialised, and the account, with the hash of no code
in place of its code hash when hashes are omitted. -/
def originalAccountData (original : StateAccount Hash) (omitHashes : Bool) : Option (StateAccount Hash) :=
  if !original.initialised then none
  else if omitHashes then some { original with codeHash := env.emptyCodeHash }
  else some original

/-- `uint256.Int.Bytes()`: empty for zero. -/
def wordBytes (v : BitVec 256) : Option (BitVec 256) :=
  if v = 0 then none else some v

/-- The `ChangeSetWriter`'s side of the writes: an account is recorded when it changed or its storage did, a
deleted account when it was initialised, and a slot when its value changed; code is not recorded. -/
def changeSetWriter : StateWriter Addr Hash (ChangeSetWriter Addr Hash) where
  updateAccountData w address original account :=
    if !accountsEqual env original account || w.storageChanged address then
      { w with accountChanges := w.accountChanges.insert address (originalAccountData env original true) }
    else w
  updateAccountCode w _ _ _ _ := w
  deleteAccount w address original :=
    if !original.initialised then w
    else { w with accountChanges := w.accountChanges.insert address (originalAccountData env original false) }
  writeAccountStorage w address incarnation key original value :=
    if original = value then w
    else
      { w with
        storageChanges := w.storageChanges.insert (address, incarnation, key) (wordBytes original)
        storageChanged := Function.update w.storageChanged address true }
  createContract w _ := w

/-- `NewPlainStateWriter(db, changeSetsDB, blockNumber)`: every write goes to the `ChangeSetWriter` and to
the plain tables. -/
def plainStateWriterWithChangeSets : StateWriter Addr Hash (PlainDB Addr Hash × ChangeSetWriter Addr Hash) where
  updateAccountData o address original account :=
    (plainStateWriter.updateAccountData o.1 address original account,
      (changeSetWriter env).updateAccountData o.2 address original account)
  updateAccountCode o address incarnation codeHash code :=
    (plainStateWriter.updateAccountCode o.1 address incarnation codeHash code,
      (changeSetWriter env).updateAccountCode o.2 address incarnation codeHash code)
  deleteAccount o address original :=
    (plainStateWriter.deleteAccount o.1 address original, (changeSetWriter env).deleteAccount o.2 address original)
  writeAccountStorage o address incarnation key original value :=
    (plainStateWriter.writeAccountStorage o.1 address incarnation key original value,
      (changeSetWriter env).writeAccountStorage o.2 address incarnation key original value)
  createContract o address :=
    (plainStateWriter.createContract o.1 address, (changeSetWriter env).createContract o.2 address)

/-- The entry of a changeset of block `n` for a key. -/
def putChange {κ β : Type} [DecidableEq κ] (n : ℕ) (cs : ℕ → κ → Option β) (e : Σ _ : κ, β) :
    ℕ → κ → Option β :=
  Function.update cs n (Function.update (cs n) e.1 (some e.2))

/-- `index.Add(blocknum)` on the index of a key. -/
def addToIndex {κ : Type} [DecidableEq κ] (n : ℕ) (idx : κ → List ℕ) (k : κ) : κ → List ℕ :=
  Function.update idx k (if n ∈ idx k then idx k else idx k ++ [n])

/-- `WriteChangeSets`: the entries of both maps, under the writer's block. -/
def writeChangeSets (w : ChangeSetWriter Addr Hash) (hist : HistoryDB Addr Hash) : HistoryDB Addr Hash :=
  { hist with
    accountChangeSet := w.accountChanges.entries.foldl (putChange w.blockNumber) hist.accountChangeSet
    storageChangeSet := w.storageChanges.entries.foldl (putChange w.blockNumber) hist.storageChangeSet }

/-- `WriteHistory`: the writer's block in the index of every key of both maps, a storage key without its
incarnation (`CompositeKeyWithoutIncarnation`). -/
def writeHistory (w : ChangeSetWriter Addr Hash) (hist : HistoryDB Addr Hash) : HistoryDB Addr Hash :=
  { hist with
    accountsHistory := w.accountChanges.entries.foldl (fun idx e => addToIndex w.blockNumber idx e.1)
      hist.accountsHistory
    storageHistory := w.storageChanges.entries.foldl (fun idx e => addToIndex w.blockNumber idx (e.1.1, e.1.2.2))
      hist.storageHistory }

/-- The writes of `FinalizeBlockExecution`: `CommitBlock` through `NewPlainStateWriter(.., blockNumber)`, then
`WriteChangeSets` and `WriteHistory`. -/
def IntraBlockState.commitBlockWithHistory (rules : Rules) (systemAddress : Addr) (s : IntraBlockState Addr Hash)
    (db : PlainDB Addr Hash) (hist : HistoryDB Addr Hash) (blockNumber : ℕ) (order : List Addr)
    (keys : Addr → List Hash) : IntraBlockState Addr Hash × PlainDB Addr Hash × HistoryDB Addr Hash :=
  let (s, db, w) := s.commitBlock env (plainStateWriterWithChangeSets env) rules systemAddress
    (db, ChangeSetWriter.new blockNumber) order keys
  (s, db, writeHistory w (writeChangeSets w hist))

/-! ### The readers -/

/-- `FindByHistory` puts back the code hash of a contract whose changeset entry has the hash of no code, from
`PlainContractCode` at its incarnation. -/
def restoreCodeHash (db : PlainDB Addr Hash) (address : Addr) (acc : StateAccount Hash) : StateAccount Hash :=
  if acc.incarnation > 0 && env.isEmptyCodeHash acc.codeHash then
    match db.plainContractCode (address, acc.incarnation) with
    | some codeHash => { acc with codeHash }
    | none => acc
  else acc

/-- `FindByHistory` for an account: the changeset entry of the first block at or after `timestamp` in the
account's index, `none` (`ErrKeyNotFound`) without one. -/
def findByHistoryAccount (db : PlainDB Addr Hash) (hist : HistoryDB Addr Hash) (address : Addr) (timestamp : ℕ) :
    Option (Option (StateAccount Hash)) :=
  match firstAtOrAfter (hist.accountsHistory address) timestamp with
  | some changeSetBlock =>
    (hist.accountChangeSet changeSetBlock address).map (Option.map (restoreCodeHash env db address))
  | none => none

/-- `GetAsOf` for an account: what `FindByHistory` finds, or the plain table's value. -/
def getAsOfAccount (db : PlainDB Addr Hash) (hist : HistoryDB Addr Hash) (address : Addr) (timestamp : ℕ) :
    Option (StateAccount Hash) :=
  match findByHistoryAccount env db hist address timestamp with
  | some data => data
  | none => db.account address

/-- `FindByHistory` for a slot: the index is read without the incarnation, the changeset with it. -/
def findByHistoryStorage (hist : HistoryDB Addr Hash) (key : Addr × UInt16 × Hash) (timestamp : ℕ) :
    Option (Option (BitVec 256)) :=
  match firstAtOrAfter (hist.storageHistory (key.1, key.2.2)) timestamp with
  | some changeSetBlock => hist.storageChangeSet changeSetBlock key
  | none => none

/-- `GetAsOf` for a slot. -/
def getAsOfStorage (db : PlainDB Addr Hash) (hist : HistoryDB Addr Hash) (key : Addr × UInt16 × Hash)
    (timestamp : ℕ) : Option (BitVec 256) :=
  match findByHistoryStorage hist key timestamp with
  | some data => data
  | none => db.storage key

/-- `PlainState.ReadAccountData` of `NewPlainState(tx, blockNr)`: `GetAsOf` at `blockNr`, with the code hash
put back. -/
def plainStateReadAccountData (db : PlainDB Addr Hash) (hist : HistoryDB Addr Hash) (blockNr : ℕ)
    (address : Addr) : Option (StateAccount Hash) :=
  (getAsOfAccount env db hist address blockNr).map (restoreCodeHash env db address)

/-- `PlainState.ReadAccountStorage`. -/
def plainStateReadAccountStorage (db : PlainDB Addr Hash) (hist : HistoryDB Addr Hash) (blockNr : ℕ)
    (address : Addr) (incarnation : UInt16) (key : Hash) : Option (BitVec 256) :=
  getAsOfStorage db hist (address, incarnation, key) blockNr

/-- `HistoryStateReader.ReadAccountData` of `NewStateHistoryReader(tx, tx, blockNr)`: the plain table's
account, and `GetAsOf` at `blockNr` when it has none. -/
def historyStateReadAccountData (db : PlainDB Addr Hash) (hist : HistoryDB Addr Hash) (blockNr : ℕ)
    (address : Addr) : Option (StateAccount Hash) :=
  match db.account address with
  | some acc => some acc
  | none => getAsOfAccount env db hist address blockNr

/-- `HistoryStateReader.ReadAccountStorage`: the plain table's slot, and `GetAsOf` when it has none. -/
def historyStateReadAccountStorage (db : PlainDB Addr Hash) (hist : HistoryDB Addr Hash) (blockNr : ℕ)
    (address : Addr) (incarnation : UInt16) (key : Hash) : Option (BitVec 256) :=
  match db.storage (address, incarnation, key) with
  | some v => some v
  | none => getAsOfStorage db hist (address, incarnation, key) blockNr

/-- A code hash that is not the hash of no code is kept. -/
theorem restoreCodeHash_of_code (db : PlainDB Addr Hash) (address : Addr) {acc : StateAccount Hash}
    (hcode : env.isEmptyCodeHash acc.codeHash = false) : restoreCodeHash env db address acc = acc := by
  simp [restoreCodeHash, hcode]

/-! ### The writes -/

@[simp] theorem plainStateWriterWithChangeSets_deleteAccount (o : PlainDB Addr Hash × ChangeSetWriter Addr Hash)
    (address : Addr) (original : StateAccount Hash) :
    (plainStateWriterWithChangeSets env).deleteAccount o address original =
      (plainStateWriter.deleteAccount o.1 address original, (changeSetWriter env).deleteAccount o.2 address original) :=
  rfl

@[simp] theorem plainStateWriter_deleteAccount_account (db : PlainDB Addr Hash) (address : Addr)
    (original : StateAccount Hash) :
    (plainStateWriter.deleteAccount db address original).account = Function.update db.account address none := by
  simp only [plainStateWriter]
  split <;> rfl

/-- A deleted account that was initialised is recorded as it was, hashes kept. -/
theorem changeSetWriter_deleteAccount_of_initialised (w : ChangeSetWriter Addr Hash) (address : Addr)
    {original : StateAccount Hash} (hinit : original.initialised = true) :
    (changeSetWriter env).deleteAccount w address original =
      { w with accountChanges := w.accountChanges.insert address (some original) } := by
  simp [changeSetWriter, originalAccountData, hinit]

@[simp] theorem writeChangeSets_accountsHistory (w : ChangeSetWriter Addr Hash) (hist : HistoryDB Addr Hash) :
    (writeChangeSets w hist).accountsHistory = hist.accountsHistory := rfl

/-- Writing the entries of a list with distinct keys into the changeset of block `n`: each key holds its
entry, and the other keys what they held. -/
theorem foldl_putChange_of_not_mem {κ β : Type} [DecidableEq κ] (n m : ℕ) (k : κ) {l : List (Σ _ : κ, β)}
    (hk : k ∉ l.keys) (cs : ℕ → κ → Option β) : (l.foldl (putChange n) cs) m k = cs m k := by
  refine ListFold.foldl_proj (fun cs => cs m k) (fun cs e he => ?_) cs
  have hne : k ≠ e.1 := fun h => hk (h ▸ List.mem_keys_of_mem he)
  by_cases hm : m = n
  · subst hm
    simp [putChange, Function.update_of_ne hne]
  · simp [putChange, Function.update_of_ne hm]

theorem foldl_putChange_of_mem {κ β : Type} [DecidableEq κ] (n : ℕ) {l : List (Σ _ : κ, β)} (hl : l.NodupKeys)
    {k : κ} {v : β} (hkv : ⟨k, v⟩ ∈ l) (cs : ℕ → κ → Option β) :
    (l.foldl (putChange n) cs) n k = some v := by
  induction l generalizing cs with
  | nil => cases hkv
  | cons e l ih =>
    rw [List.nodupKeys_cons] at hl
    rw [List.foldl_cons]
    rcases List.mem_cons.1 hkv with rfl | hmem
    · -- the entry at the head: no later entry has its key
      rw [foldl_putChange_of_not_mem n n k hl.1]
      simp [putChange]
    · exact ih hl.2 hmem _

/-- After `WriteChangeSets`, the changeset of the writer's block holds every recorded account's entry. -/
theorem writeChangeSets_accountChangeSet (w : ChangeSetWriter Addr Hash) (hist : HistoryDB Addr Hash)
    {address : Addr} {e : Option (StateAccount Hash)} (he : w.accountChanges.lookup address = some e) :
    (writeChangeSets w hist).accountChangeSet w.blockNumber address = some e :=
  foldl_putChange_of_mem w.blockNumber w.accountChanges.nodupKeys (AList.mem_lookup_iff.1 he) _

/-- Adding blocks to an index keeps the blocks it had. -/
theorem mem_foldl_addToIndex_of_mem {κ σ : Type} [DecidableEq κ] (n : ℕ) (key : σ → κ) {c : ℕ} {k : κ}
    (l : List σ) {idx : κ → List ℕ} (hc : c ∈ idx k) :
    c ∈ (l.foldl (fun idx e => addToIndex n idx (key e)) idx) k := by
  induction l generalizing idx with
  | nil => exact hc
  | cons e l ih =>
    apply ih
    by_cases hk : k = key e
    · subst hk
      simp only [addToIndex, Function.update_self]
      split
      · exact hc
      · exact List.mem_append_left _ hc
    · simpa [addToIndex, Function.update_of_ne hk] using hc

theorem mem_foldl_addToIndex {κ σ : Type} [DecidableEq κ] (n : ℕ) (key : σ → κ) {l : List σ} {e : σ}
    (he : e ∈ l) (idx : κ → List ℕ) : n ∈ (l.foldl (fun idx e => addToIndex n idx (key e)) idx) (key e) := by
  induction l generalizing idx with
  | nil => cases he
  | cons e' l ih =>
    rw [List.foldl_cons]
    rcases List.mem_cons.1 he with rfl | hmem
    · -- the block is in the index from the head's step on
      apply mem_foldl_addToIndex_of_mem
      simp only [addToIndex, Function.update_self]
      split
      · assumption
      · exact List.mem_append_right _ List.mem_cons_self
    · exact ih hmem _

/-- After `WriteHistory`, the writer's block is in the index of every recorded account. -/
theorem mem_writeHistory_accountsHistory (w : ChangeSetWriter Addr Hash) (hist : HistoryDB Addr Hash)
    {address : Addr} {e : Option (StateAccount Hash)} (he : w.accountChanges.lookup address = some e) :
    w.blockNumber ∈ (writeHistory w hist).accountsHistory address :=
  mem_foldl_addToIndex w.blockNumber Sigma.fst (AList.mem_lookup_iff.1 he) _

/-! ### Reading the history -/

/-- `GetAsOf` for an account is the read of `FirstChange`, from the account's changesets and the plain
table. -/
theorem getAsOfAccount_eq_readAsOf (db : PlainDB Addr Hash) (hist : HistoryDB Addr Hash) (address : Addr)
    (timestamp : ℕ) :
    getAsOfAccount env db hist address timestamp =
      readAsOf (fun c => (hist.accountChangeSet c address).map (Option.map (restoreCodeHash env db address)))
        (db.account address) (hist.accountsHistory address) timestamp := by
  unfold getAsOfAccount findByHistoryAccount readAsOf
  cases firstAtOrAfter (hist.accountsHistory address) timestamp with
  | none => rfl
  | some c => cases h : hist.accountChangeSet c address <;> simp [h]

/-- The account of a block read at the block itself, when the block is in the account's index. -/
theorem getAsOfAccount_of_mem {db : PlainDB Addr Hash} {hist : HistoryDB Addr Hash} {address : Addr} {n : ℕ}
    (hn : n ∈ hist.accountsHistory address) {e : Option (StateAccount Hash)}
    (he : hist.accountChangeSet n address = some e) :
    getAsOfAccount env db hist address n = e.map (restoreCodeHash env db address) := by
  simp [getAsOfAccount, findByHistoryAccount, firstAtOrAfter_of_mem hn, he]

/-- The history tables record the accounts of a chain up to block `N`, from the states after each block: the
plain table holds the state after `N`; every change of an account at a block from 1 to `N` is in its index;
every block of its index, from 1 to `N`, holds in its changeset the account before the block, as
`FindByHistory` reads it back; and putting the code hash back changes no account of the chain. -/
structure RecordsAccounts (db : PlainDB Addr Hash) (hist : HistoryDB Addr Hash)
    (states : ℕ → Addr → Option (StateAccount Hash)) (N : ℕ) : Prop where
  plain : ∀ a, db.account a = states N a
  changes : ∀ a, ChangesIn (fun c => states c a) (hist.accountsHistory a) 0 N
  before : ∀ a, ∀ c ∈ hist.accountsHistory a, 0 < c ∧ c ≤ N ∧
    (hist.accountChangeSet c a).map (Option.map (restoreCodeHash env db a)) = some (states (c - 1) a)
  restored : ∀ c a acc, states c a = some acc → restoreCodeHash env db a acc = acc

/-- `NewPlainState(tx, B)` reads an account as it was after block `B - 1`, for every `B` from 1 to `N + 1`. -/
theorem plainStateReadAccountData_of_records {db : PlainDB Addr Hash} {hist : HistoryDB Addr Hash}
    {states : ℕ → Addr → Option (StateAccount Hash)} {N : ℕ} (hrec : RecordsAccounts env db hist states N)
    (a : Addr) {B : ℕ} (hB : 0 < B) (hBN : B ≤ N + 1) :
    plainStateReadAccountData env db hist B a = states (B - 1) a := by
  have hread : getAsOfAccount env db hist a B = states (B - 1) a := by
    rw [getAsOfAccount_eq_readAsOf, hrec.plain a]
    exact readAsOf_eq (hrec.changes a) (hrec.before a) hB hBN
  unfold plainStateReadAccountData
  rw [hread]
  cases hs : states (B - 1) a with
  | none => rfl
  | some acc => simp [hrec.restored _ _ _ hs]

/-- `NewStateHistoryReader(tx, tx, N)` over such tables reads an account that block `N` deleted as it was
before the block. -/
theorem historyStateReadAccountData_of_deleted {db : PlainDB Addr Hash} {hist : HistoryDB Addr Hash}
    {states : ℕ → Addr → Option (StateAccount Hash)} {N : ℕ} (hrec : RecordsAccounts env db hist states N)
    (hN : 0 < N) {a : Addr} (hdeleted : states N a = none) :
    historyStateReadAccountData env db hist N a = states (N - 1) a := by
  have hplain : db.account a = none := (hrec.plain a).trans hdeleted
  have hread : getAsOfAccount env db hist a N = states (N - 1) a := by
    rw [getAsOfAccount_eq_readAsOf, hrec.plain a]
    exact readAsOf_eq (hrec.changes a) (hrec.before a) hN (by omega)
  simp [historyStateReadAccountData, hplain, hread]

/-! ### A block that deletes an account -/

namespace StateObject

variable (w : StateWriter Addr Hash ω) (rules : Rules) (systemAddress addr : Addr)

/-- A self-destructed account that the block did not create is deleted, and written no more. -/
theorem updateAccount_of_selfdestructed {so : StateObject Addr Hash} (hsd : so.selfdestructed = true)
    (hcreated : so.created = false) (isDirty : Bool) (o : ω) (keys : List Hash) :
    so.updateAccount env w rules systemAddress addr isDirty o keys =
      ({ so with deleted := true }, w.deleteAccount o addr so.original) := by
  simp [updateAccount, hsd, hcreated]

end StateObject

namespace IntraBlockState

variable (rules : Rules) (systemAddress : Addr) (keys : Addr → List Hash)

/-- `Selfdestruct` of an account of the database, first thing in a block: the account's object, destructed,
is the only live one, and the journal holds its one entry. -/
theorem selfdestruct_of_read (reader : StateReader Addr Hash) {x : Addr} {acc : StateAccount Hash}
    (hread : reader.readAccountData x = some acc) :
    ∃ so, ((new env reader).selfdestruct env x).2.stateObjects = Function.update (fun _ => none) x (some so) ∧
      ((new env reader).selfdestruct env x).2.journal =
        [.selfdestructChange x false (StateObject.newObject env x acc acc).data.balance] ∧
      ((new env reader).selfdestruct env x).2.balanceInc = (fun _ => none) ∧
      so.original = acc ∧ so.selfdestructed = true ∧ so.created = false := by
  have hinc : (new env reader).balanceInc x = none := rfl
  simp only [selfdestruct, getStateObject_of_read env (rfl : (new env reader).stateObjects x = none) rfl hread,
    withIncrease_of_none hinc, setStateObject_of_none hinc, StateObject.newObject_deleted, Bool.false_eq_true,
    ↓reduceIte]
  -- the object read is written twice: as read, then destructed
  refine ⟨{ StateObject.newObject env x acc acc with
    selfdestructed := true, created := false,
    data := { (StateObject.newObject env x acc acc).data with balance := 0 } }, ?_, by simp, by simp, rfl, rfl, rfl⟩
  simp [Function.update_idem]

/-- A block whose one transaction self-destructs an account `x` of the plain state, committed with its
history at block `n`: the plain table no longer holds `x`, the index of `x` has the block, and the block's
changeset holds `x` as it was. -/
theorem commitBlockWithHistory_selfdestruct (db : PlainDB Addr Hash) (hist : HistoryDB Addr Hash) {x : Addr}
    {acc : StateAccount Hash} (hacc : db.account x = some acc) (hinit : acc.initialised = true) (n : ℕ)
    {order : List Addr} (horder : order.count x = 1) :
    let s := ((new env (plainStateReader env db)).selfdestruct env x).2
    let post := (s.finalizeTx env noopWriter rules systemAddress () order keys).1.commitBlockWithHistory env rules
      systemAddress db hist n order keys
    post.2.1.account x = none ∧ n ∈ post.2.2.accountsHistory x ∧
      post.2.2.accountChangeSet n x = some (some acc) := by
  intro s post
  obtain ⟨so, hobjs, hjournal, hbal, horig, hsd, hcreated⟩ :=
    selfdestruct_of_read env (plainStateReader env db) hacc
  have hs : s.stateObjects = Function.update (fun _ => none) x (some so) := hobjs
  have hso : s.stateObjects x = some so := by rw [hs]; exact Function.update_self ..
  have hinc : ∀ addr, s.balanceInc addr = none := fun addr => by rw [hbal]
  have hj : s.journal = [.selfdestructChange x false (StateObject.newObject env x acc acc).data.balance] := hjournal
  obtain ⟨hdx, hdirty⟩ := dirties_of_only (s := s) (a := x) (by simp [hj, JournalEntry.dirtied])
    (by simp [hj, JournalEntry.dirtied])
  -- `FinalizeTx` deletes the object, and the end of the block deletes it again, through the history writer
  set t := ({ s.writeObject x { so with deleted := true } with
    stateObjectsDirty := Function.update s.stateObjectsDirty x true } : IntraBlockState Addr Hash).clearJournalAndRefund
  have hfin : (s.finalizeTx env noopWriter rules systemAddress () order keys).1 = t := by
    rw [finalizeTx_of_single env noopWriter rules systemAddress keys hinc hdirty hdx hso () horder,
      StateObject.updateAccount_of_selfdestructed env noopWriter rules systemAddress x hsd hcreated]
  have htlive : ∀ addr, addr ≠ x → t.stateObjects addr = none := fun addr haddr => by
    simp [t, Function.update_of_ne haddr, hs]
  have htso : t.stateObjects x = some { so with deleted := true } := by simp [t]
  have htinc : ∀ addr, t.balanceInc addr = none := fun addr => by simp [t, hinc addr]
  have hsd' : ({ so with deleted := true } : StateObject Addr Hash).selfdestructed = true := hsd
  have hcreated' : ({ so with deleted := true } : StateObject Addr Hash).created = false := hcreated
  have hwrite : (t.commitBlock env (plainStateWriterWithChangeSets env) rules systemAddress
      (db, ChangeSetWriter.new n) order keys).2 =
      (plainStateWriter.deleteAccount db x acc, (changeSetWriter env).deleteAccount (ChangeSetWriter.new n) x acc) := by
    rw [commitBlock_of_single env _ rules systemAddress keys htinc rfl htlive htso _ horder,
      StateObject.updateAccount_of_selfdestructed env _ rules systemAddress x hsd' hcreated']
    simp [horig]
  -- the writer recorded `x` as it was, under block `n`
  have hlookup : ((changeSetWriter env).deleteAccount (ChangeSetWriter.new n : ChangeSetWriter Addr Hash) x
      acc).accountChanges.lookup x = some (some acc) := by
    rw [changeSetWriter_deleteAccount_of_initialised env _ x hinit]
    exact AList.lookup_insert _
  have hcommit : t.commitBlock env (plainStateWriterWithChangeSets env) rules systemAddress
      (db, ChangeSetWriter.new n) order keys =
      ((t.commitBlock env (plainStateWriterWithChangeSets env) rules systemAddress
        (db, ChangeSetWriter.new n) order keys).1,
        plainStateWriter.deleteAccount db x acc, (changeSetWriter env).deleteAccount (ChangeSetWriter.new n) x acc) :=
    Prod.ext rfl hwrite
  have hpost : post.2 = (plainStateWriter.deleteAccount db x acc,
      writeHistory ((changeSetWriter env).deleteAccount (ChangeSetWriter.new n) x acc)
        (writeChangeSets ((changeSetWriter env).deleteAccount (ChangeSetWriter.new n) x acc) hist)) := by
    show (commitBlockWithHistory env rules systemAddress (s.finalizeTx env noopWriter rules systemAddress () order
      keys).1 db hist n order keys).2 = _
    rw [hfin]
    unfold commitBlockWithHistory
    rw [hcommit]
  rw [hpost]
  have hblock : ((changeSetWriter env).deleteAccount (ChangeSetWriter.new n : ChangeSetWriter Addr Hash) x
      acc).blockNumber = n := by
    rw [changeSetWriter_deleteAccount_of_initialised env _ x hinit]
    rfl
  refine ⟨by simp, ?_, ?_⟩
  · have hmem := mem_writeHistory_accountsHistory _ hist hlookup
    rwa [hblock] at hmem
  · have hchange := writeChangeSets_accountChangeSet _ hist hlookup
    rwa [hblock] at hchange

end IntraBlockState

/-- A block `n` whose one transaction self-destructs an account `x` of the plain state, committed by
`FinalizeBlockExecution`: after it the plain state has no account `x`, but `NewStateHistoryReader(tx, tx, n)`,
the tx pool's state at the head `n`, reads `x` as it was before the block. -/
theorem commitBlockWithHistory_reads_deleted_account (rules : Rules) (systemAddress : Addr) (keys : Addr → List Hash)
    (db : PlainDB Addr Hash) (hist : HistoryDB Addr Hash) {x : Addr} {acc : StateAccount Hash}
    (hacc : db.account x = some acc) (hinit : acc.initialised = true) (n : ℕ) {order : List Addr}
    (horder : order.count x = 1) :
    let s := ((IntraBlockState.new env (plainStateReader env db)).selfdestruct env x).2
    let post := (s.finalizeTx env noopWriter rules systemAddress () order keys).1.commitBlockWithHistory env rules
      systemAddress db hist n order keys
    post.2.1.account x = none ∧
      historyStateReadAccountData env post.2.1 post.2.2 n x = some (restoreCodeHash env post.2.1 x acc) := by
  intro s post
  obtain ⟨hplain, hindex, hchange⟩ : post.2.1.account x = none ∧ n ∈ post.2.2.accountsHistory x ∧
      post.2.2.accountChangeSet n x = some (some acc) :=
    IntraBlockState.commitBlockWithHistory_selfdestruct env rules systemAddress keys db hist hacc hinit n horder
  refine ⟨hplain, ?_⟩
  simp [historyStateReadAccountData, hplain, getAsOfAccount_of_mem env hindex hchange]

/-- The empty history tables. -/
def HistoryDB.empty : HistoryDB Addr Hash :=
  ⟨fun _ _ => none, fun _ _ => none, fun _ => [], fun _ => []⟩

/-- A contract at `1`, of incarnation 1, whose code has the hash `7`. -/
def exampleContractDB : PlainDB ℕ ℕ :=
  { PlainDB.empty with
    account := fun a => if a = 1 then some ⟨true, 1, 5, 7, 1⟩ else none
    plainContractCode := fun k => if k = (1, 1) then some 7 else none }

/-- Block 1 destructs the contract at `1`; the tx pool's state at block 1 still has it. -/
theorem commitBlockWithHistory_reads_deleted_account_contract :
    let env := IntraBlockState.exampleEnv
    let s := ((IntraBlockState.new env (plainStateReader env exampleContractDB)).selfdestruct env 1).2
    let post := (s.finalizeTx env noopWriter IntraBlockState.exampleRules 0 () [1] fun _ => []).1.commitBlockWithHistory
      env IntraBlockState.exampleRules 0 exampleContractDB HistoryDB.empty 1 [1] fun _ => []
    post.2.1.account 1 = none ∧
      historyStateReadAccountData env post.2.1 post.2.2 1 1 = some ⟨true, 1, 5, 7, 1⟩ := by
  have h := commitBlockWithHistory_reads_deleted_account IntraBlockState.exampleEnv IntraBlockState.exampleRules 0
    (fun _ => []) exampleContractDB HistoryDB.empty
    (show exampleContractDB.account 1 = some ⟨true, 1, 5, 7, 1⟩ from rfl) rfl 1 (show [1].count 1 = 1 from rfl)
  refine ⟨h.1, h.2.trans ?_⟩
  exact congrArg some (restoreCodeHash_of_code IntraBlockState.exampleEnv _ 1 (by decide))

end AmazeChain.State
