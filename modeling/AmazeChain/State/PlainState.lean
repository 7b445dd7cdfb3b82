import AmazeChain.State.Finalise
import AmazeChain.State.Revert

/-!
# The plain state

The tables a block is committed to (`modules/table.go`) and read back from: `Account` by address,
`Storage` by address, incarnation and key, `Code` by code hash, `PlainCodeHash` by address and
incarnation, and `IncarnationMap`, the incarnation of a contract when it was last deleted.
`PlainStateReader` (`modules/state/plain_state_reader.go`) reads them and `PlainStateWriter`
(`plain_state_writer.go`) writes them.  A missing entry and an empty one read alike, as `nil`; the
protobuf encoding of an account and the big-endian encodings of incarnations and storage words round-trip,
so a table holds the decoded value.  The `ChangeSetWriter` that `NewPlainStateWriter` attaches records the
same writes aside, in memory, and changes none of these tables.

Storage is keyed by incarnation, and nothing deletes the storage of a destroyed contract: a contract made
again at its address is isolated from the old storage only by a new incarnation.  `CreateAccount` takes the
incarnation after the one `IncarnationMap` records, and only `DeleteAccount` records one.  An account that
self-destructs and is funded again in the same block is written back, not deleted, with incarnation 0, and
`IncarnationMap` keeps no entry for it.  A contract made there later takes incarnation 1 again and reads the
storage of the first one (`commitBlock_reads_stale_storage`).
-/

set_option linter.unusedSectionVars false

namespace AmazeChain.State

variable {Addr Hash : Type}

/-- The tables of the plain state. -/
structure PlainDB (Addr Hash : Type) where
  account : Addr → Option (StateAccount Hash)
  storage : Addr × UInt16 × Hash → Option (BitVec 256)
  code : Hash → Option (List UInt8)
  plainContractCode : Addr × UInt16 → Option Hash
  incarnationMap : Addr → Option UInt16

/-- The empty database. -/
def PlainDB.empty : PlainDB Addr Hash :=
  ⟨fun _ => none, fun _ => none, fun _ => none, fun _ => none, fun _ => none⟩

variable [DecidableEq Addr] [DecidableEq Hash] (env : StateEnv Addr Hash)

/-- `PlainStateReader`: no code is read for the hash of no code, and a missing incarnation is 0. -/
def plainStateReader (db : PlainDB Addr Hash) : StateReader Addr Hash where
  readAccountData address := db.account address
  readAccountStorage address incarnation key := db.storage (address, incarnation, key)
  readAccountCode _ _ codeHash :=
    if codeHash = env.emptyCodeHash then none
    else
      match db.code codeHash with
      | some code => if code = [] then none else some code
      | none => none
  readAccountCodeSize _ _ codeHash :=
    (if codeHash = env.emptyCodeHash then [] else (db.code codeHash).getD []).length
  readAccountIncarnation address := (db.incarnationMap address).getD 0

/-- `PlainStateWriter`'s writes to the tables.  A deleted contract's incarnation is recorded; a storage write
of the value the block started with is skipped, and a zero word is a deletion. -/
def plainStateWriter : StateWriter Addr Hash (PlainDB Addr Hash) where
  updateAccountData db address _ account := { db with account := Function.update db.account address (some account) }
  updateAccountCode db address incarnation codeHash code :=
    { db with
      code := Function.update db.code codeHash (some code)
      plainContractCode := Function.update db.plainContractCode (address, incarnation) (some codeHash) }
  deleteAccount db address original :=
    let db := { db with account := Function.update db.account address none }
    if original.incarnation > 0 then
      { db with incarnationMap := Function.update db.incarnationMap address (some original.incarnation) }
    else db
  writeAccountStorage db address incarnation key original value :=
    if original = value then db
    else if value = 0 then { db with storage := Function.update db.storage (address, incarnation, key) none }
    else { db with storage := Function.update db.storage (address, incarnation, key) (some value) }
  createContract db _ := db

@[simp] theorem plainStateReader_readAccountData (db : PlainDB Addr Hash) (address : Addr) :
    (plainStateReader env db).readAccountData address = db.account address := rfl

@[simp] theorem plainStateReader_readAccountStorage (db : PlainDB Addr Hash) (address : Addr)
    (incarnation : UInt16) (key : Hash) :
    (plainStateReader env db).readAccountStorage address incarnation key = db.storage (address, incarnation, key) :=
  rfl

@[simp] theorem plainStateReader_readAccountIncarnation (db : PlainDB Addr Hash) (address : Addr) :
    (plainStateReader env db).readAccountIncarnation address = (db.incarnationMap address).getD 0 := rfl

@[simp] theorem plainStateWriter_updateAccountData (db : PlainDB Addr Hash) (address : Addr)
    (original account : StateAccount Hash) :
    plainStateWriter.updateAccountData db address original account =
      { db with account := Function.update db.account address (some account) } := rfl

@[simp] theorem plainStateWriter_createContract (db : PlainDB Addr Hash) (address : Addr) :
    plainStateWriter.createContract db address = db := rfl

namespace IntraBlockState

variable (rules : Rules) (systemAddress : Addr) (keys : Addr → List Hash)

/-- The contract `CreateAccount(x, true)` and `SetNonce(x, 1)` make at an account of the database, as the
block leaves it: the account's balance, incarnation one more than `IncarnationMap` records, and created. -/
theorem createAccount_setNonce_of_read {s : IntraBlockState Addr Hash} {x : Addr} {acc : StateAccount Hash}
    (hlive : s.stateObjects x = none) (hnil : s.nilAccounts x = false) (hinc : s.balanceInc x = none)
    (hread : s.stateReader.readAccountData x = some acc) :
    ∃ so, ((s.createAccount env x true).setNonce env x 1).stateObjects = Function.update s.stateObjects x (some so) ∧
      ((s.createAccount env x true).setNonce env x 1).journal =
        s.journal ++ [.resetObjectChange x (StateObject.newObject env x acc acc), .nonceChange x 0] ∧
      ((s.createAccount env x true).setNonce env x 1).balanceInc = s.balanceInc ∧
      so.data.incarnation = s.stateReader.readAccountIncarnation x + 1 ∧ so.data.nonce = 1 ∧ so.created = true ∧
      so.selfdestructed = false ∧ so.deleted = false ∧ so.code = none ∧ so.fakeStorage = none ∧
      (∀ key, so.dirtyStorage key = none) ∧ (∀ key, so.originStorage key = none) := by
  rw [createAccount_of_read env hlive hnil hinc hread]
  dsimp only
  set newobj := (StateObject.newObject env x (StateAccount.zero env.zeroHash) acc).setNonce 0
  set made : StateObject Addr Hash := { newobj with
    created := true
    data := { newobj.data with
      balance := (StateObject.newObject env x acc acc).data.balance, initialised := true,
      incarnation := s.stateReader.readAccountIncarnation x + 1 } }
  set t := ((((s.writeObject x (StateObject.newObject env x acc acc)).append
    (.resetObjectChange x (StateObject.newObject env x acc acc))).writeObject x newobj).writeObject x made)
  have ht : t.stateObjects x = some made := by simp [t]
  rw [setNonce_of_live env ht rfl]
  refine ⟨made.setNonce 1, ?_, ?_, ?_, rfl, rfl, rfl, rfl, rfl, rfl, rfl, fun _ => rfl, fun _ => rfl⟩
  · simp [t]
  · -- the nonce change names the new object's address and its nonce 0
    simp only [t, append_journal, writeObject_journal, List.append_assoc, List.cons_append, List.nil_append]
    rfl
  · simp [t]

/-- A contract made at an address whose account the database has but whose incarnation it never recorded:
the block reads zero from a slot the contract has not written, and after `CommitBlock` a fresh state reads
there what the database held under incarnation 1. -/
theorem commitBlock_reads_stale_storage (db : PlainDB Addr Hash) {x : Addr} {acc : StateAccount Hash} {key : Hash}
    {v : BitVec 256} (hacc : db.account x = some acc) (hmap : db.incarnationMap x = none)
    (hst : db.storage (x, 1, key) = some v) {order : List Addr} (horder : order.count x = 1) :
    let s := ((new env (plainStateReader env db)).createAccount env x true).setNonce env x 1
    let post := (s.finalizeTx env noopWriter rules systemAddress () order keys).1.commitBlock env plainStateWriter
      rules systemAddress db order keys
    (post.1.getState env x key).1 = 0 ∧ ((new env (plainStateReader env post.2)).getState env x key).1 = v := by
  intro s post
  obtain ⟨so, hobjs, hjournal, hbal, hincarn, hnonce, hcreated, hsd, -, hcode, hfake, hclean, horigin⟩ :=
    createAccount_setNonce_of_read env (s := new env (plainStateReader env db)) rfl rfl rfl hacc
  -- the block leaves one live object, and its journal counts only that address
  have hso : s.stateObjects x = some so := by rw [hobjs]; exact Function.update_self ..
  have hothers : ∀ addr, addr ≠ x → s.stateObjects addr = none := fun addr haddr => by
    rw [hobjs, Function.update_of_ne haddr]; rfl
  have hj : s.journal = [.resetObjectChange x (StateObject.newObject env x acc acc), .nonceChange x 0] :=
    hjournal.trans (by simp)
  obtain ⟨hdx, hdirty⟩ := dirties_of_only (s := s) (a := x) (by simp [hj, JournalEntry.dirtied])
    (by simp [hj, JournalEntry.dirtied])
  have he : so.empty env = false := by simp [StateObject.empty, hnonce]
  obtain ⟨hpostObjs, -, hpostDB⟩ := commitBlock_finalizeTx_of_clean env rules systemAddress keys noopWriter
    plainStateWriter (fun addr => by rw [show s.balanceInc = _ from hbal]; rfl) hothers hso hdirty hdx hsd he hclean hcode () db horder
  constructor
  · -- the block's own object was created in it, so the slot reads zero
    have hpost : post.1.stateObjects x = some { so with deleted := false } := by
      rw [hpostObjs]; exact Function.update_self ..
    simp [getState, getStateObject_of_live env hpost, StateObject.getState, StateObject.getCommittedState, hfake,
      hclean, horigin, hcreated]
  · -- the account written has incarnation `0 + 1`, under which the old storage is still there
    have hread : (plainStateReader env post.2).readAccountData x = some so.data := by
      rw [plainStateReader_readAccountData, hpostDB]
      simp
    have hinc1 : so.data.incarnation = 1 := by
      rw [hincarn]
      simp [hmap]
    have hstorage : post.2.storage = db.storage := by rw [hpostDB]; simp
    have hnew : (new env (plainStateReader env post.2)).balanceInc x = none := rfl
    simp [getState, getStateObject_of_read env (rfl : (new env (plainStateReader env post.2)).stateObjects x = none) rfl
      hread, withIncrease_of_none hnew, setStateObject_of_none hnew, StateObject.getState, StateObject.getCommittedState, hinc1, hstorage, hst]

/-- EIP-161 on, no Aura. -/
def exampleRules : Rules := ⟨true, false⟩

/-- The database after two blocks from the empty one: block A makes a contract at `1` and writes `7` into its
slot `5`; in block B one transaction destructs it and the next sends it `1`. -/
def exampleRefundedDB : PlainDB ℕ ℕ :=
  let keys : ℕ → List ℕ := fun _ => [5]
  let blockA := (((new exampleEnv (plainStateReader exampleEnv PlainDB.empty)).createAccount exampleEnv 1 true).setNonce
    exampleEnv 1 1).setState exampleEnv 1 5 7
  let dbA := ((blockA.finalizeTx exampleEnv noopWriter exampleRules 0 () [1] keys).1.commitBlock exampleEnv
    plainStateWriter exampleRules 0 PlainDB.empty [1] keys).2
  let tx1 := ((new exampleEnv (plainStateReader exampleEnv dbA)).selfdestruct exampleEnv 1).2
  let tx2 := (tx1.finalizeTx exampleEnv noopWriter exampleRules 0 () [1] keys).1.addBalance exampleEnv 1 1
  ((tx2.finalizeTx exampleEnv noopWriter exampleRules 0 () [1] keys).1.commitBlock exampleEnv plainStateWriter
    exampleRules 0 dbA [1] keys).2

theorem commitBlock_reads_stale_storage_refundedDB :
    exampleRefundedDB.account 1 = some ⟨true, 0, 1, 1, 0⟩ ∧ exampleRefundedDB.incarnationMap 1 = none ∧
      exampleRefundedDB.storage (1, 1, 5) = some 7 ∧ [1].count 1 = 1 ∧
      let s := ((new exampleEnv (plainStateReader exampleEnv exampleRefundedDB)).createAccount exampleEnv 1 true).setNonce
        exampleEnv 1 1
      let post := (s.finalizeTx exampleEnv noopWriter exampleRules 0 () [1] fun _ => [5]).1.commitBlock exampleEnv
        plainStateWriter exampleRules 0 exampleRefundedDB [1] fun _ => [5]
      (post.1.getState exampleEnv 1 5).1 = 0 ∧
        ((new exampleEnv (plainStateReader exampleEnv post.2)).getState exampleEnv 1 5).1 = 7 := by
  have hacc : exampleRefundedDB.account 1 = some ⟨true, 0, 1, 1, 0⟩ := by decide
  have hmap : exampleRefundedDB.incarnationMap 1 = none := by decide
  have hst : exampleRefundedDB.storage (1, 1, 5) = some 7 := by decide
  exact ⟨hacc, hmap, hst, rfl,
    commitBlock_reads_stale_storage exampleEnv exampleRules 0 (fun _ => [5]) exampleRefundedDB hacc hmap hst rfl⟩

end IntraBlockState

end AmazeChain.State
