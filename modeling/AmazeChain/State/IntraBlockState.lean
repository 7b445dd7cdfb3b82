import AmazeChain.State.Object
import AmazeChain.State.AccessList

/-!
# The intra-block state

`IntraBlockState` (`modules/state/intra_block_state.go`) caches the accounts a block reads and changes.
`stateObjects` holds the live objects, read from the database once (`getStateObject`) or made afresh
(`createObject`); `nilAccounts` the addresses the database has no account for.  `AddBalance` of an account
not yet read does not read it: the increase waits in `balanceInc` and moves into the object when the
object is loaded or made (`setStateObject`), at the latest when the block is committed.

Every change that a revert must undo goes into the journal (`journal.go`); `Snapshot` records the journal's
length, and `RevertToSnapshot` (in `Journal`) replays the entries after it backwards.  A journal entry
points to an account, or to a `BalanceIncrease`, through Go pointers; here an entry names the address.
The object a pointer reaches is the one live at that address when the entry is reverted, and the balance
increase it reaches is the one in `balanceInc` then, if any: an increase leaves `balanceInc` only when the
entry that made it is reverted, after the entries that came after it.

Writes through the pointer an object was got by are writes at the address it was got from
(`writeObject`).  `New` leaves `codeMap` nil, on which the first write of `CodeHashes` would panic; the miner
makes it with `BeginWriteCodes` before a block, and here it starts empty.  The journal's `dirties` counts are
`journalDirties`: `append` counts the account an entry dirties, and `touch` of `ripemd` counts it once more
with no entry (`dirty`).  The error memo `savedErr`, the tracer and the snapshot writer `snap` are left out:
no function here reads them.
-/

namespace AmazeChain.State

variable {Addr Hash : Type}

/-- `block.Log`. -/
structure Log (Addr Hash : Type) where
  address : Addr
  topics : List Hash
  data : List UInt8
  txHash : Hash
  blockHash : Hash
  txIndex : ℕ
  index : UInt64
  deriving DecidableEq, Repr

/-- `BalanceIncrease`: the increases of an account not yet read, and whether they moved into its object. -/
structure BalanceIncrease where
  increase : BitVec 256
  transferred : Bool
  count : Int
  deriving DecidableEq, Repr

/-- `revision`. -/
structure Revision where
  id : ℕ
  journalIndex : ℕ
  deriving DecidableEq, Repr

/-- The journal entries of `journal.go`. -/
inductive JournalEntry (Addr Hash : Type) where
  | createObjectChange (account : Addr)
  | resetObjectChange (account : Addr) (prev : StateObject Addr Hash)
  | selfdestructChange (account : Addr) (prev : Bool) (prevbalance : BitVec 256)
  | balanceChange (account : Addr) (prev : BitVec 256)
  | balanceIncrease (account : Addr) (increase : BitVec 256)
  | balanceIncreaseTransfer (bi : Addr)
  | nonceChange (account : Addr) (prev : UInt64)
  | storageChange (account : Addr) (key : Hash) (prevalue : BitVec 256)
  | fakeStorageChange (account : Addr) (key : Hash) (prevalue : BitVec 256)
  | codeChange (account : Addr) (prevcode : Option (List UInt8)) (prevhash : Hash)
  | refundChange (prev : UInt64)
  | addLogChange (txhash : Hash)
  | touchChange (account : Addr)
  | accessListAddAccountChange (address : Addr)
  | accessListAddSlotChange (address : Addr) (slot : Hash)

/-- `journalEntry.dirtied`: the account whose count an entry raises. -/
def JournalEntry.dirtied : JournalEntry Addr Hash → Option Addr
  | .createObjectChange account => some account
  | .resetObjectChange _ _ => none
  | .selfdestructChange account _ _ => some account
  | .balanceChange account _ => some account
  | .balanceIncrease account _ => some account
  | .balanceIncreaseTransfer _ => none
  | .nonceChange account _ => some account
  | .storageChange account _ _ => some account
  | .fakeStorageChange account _ _ => some account
  | .codeChange account _ _ => some account
  | .refundChange _ => none
  | .addLogChange _ => none
  | .touchChange account => some account
  | .accessListAddAccountChange _ => none
  | .accessListAddSlotChange _ _ => none

structure IntraBlockState (Addr Hash : Type) where
  stateReader : StateReader Addr Hash
  stateObjects : Addr → Option (StateObject Addr Hash)
  stateObjectsDirty : Addr → Bool
  nilAccounts : Addr → Bool
  refund : UInt64
  thash : Hash
  bhash : Hash
  txIndex : ℕ
  logs : Hash → List (Log Addr Hash)
  logSize : UInt64
  journal : List (JournalEntry Addr Hash)
  validRevisions : List Revision
  nextRevisionID : ℕ
  accessList : AccessList Addr Hash
  balanceInc : Addr → Option BalanceIncrease
  codeMap : Hash → Option (List UInt8)
  /-- `journal.dirties`; an address it does not hold has no count. -/
  journalDirties : Addr → Option Int

namespace IntraBlockState

/-- `New`: nothing read yet.  The hashes of the transaction and the block start at the zero hash. -/
def new (env : StateEnv Addr Hash) (stateReader : StateReader Addr Hash) : IntraBlockState Addr Hash where
  stateReader
  stateObjects := fun _ => none
  stateObjectsDirty := fun _ => false
  nilAccounts := fun _ => false
  refund := 0
  thash := env.zeroHash
  bhash := env.zeroHash
  txIndex := 0
  logs := fun _ => []
  logSize := 0
  journal := []
  validRevisions := []
  nextRevisionID := 0
  accessList := AccessList.newAccessList
  balanceInc := fun _ => none
  codeMap := fun _ => none
  journalDirties := fun _ => none

@[simp] theorem new_stateReader (env : StateEnv Addr Hash) (stateReader : StateReader Addr Hash) :
    (new env stateReader).stateReader = stateReader := rfl

@[simp] theorem new_stateObjects (env : StateEnv Addr Hash) (stateReader : StateReader Addr Hash) :
    (new env stateReader).stateObjects = fun _ => none := rfl

@[simp] theorem new_stateObjectsDirty (env : StateEnv Addr Hash) (stateReader : StateReader Addr Hash) :
    (new env stateReader).stateObjectsDirty = fun _ => false := rfl

@[simp] theorem new_nilAccounts (env : StateEnv Addr Hash) (stateReader : StateReader Addr Hash) :
    (new env stateReader).nilAccounts = fun _ => false := rfl

@[simp] theorem new_journal (env : StateEnv Addr Hash) (stateReader : StateReader Addr Hash) :
    (new env stateReader).journal = [] := rfl

@[simp] theorem new_balanceInc (env : StateEnv Addr Hash) (stateReader : StateReader Addr Hash) :
    (new env stateReader).balanceInc = fun _ => none := rfl

@[simp] theorem new_journalDirties (env : StateEnv Addr Hash) (stateReader : StateReader Addr Hash) :
    (new env stateReader).journalDirties = fun _ => none := rfl

/-- `j.dirties[addr]++`. -/
def incDirties [DecidableEq Addr] (dirties : Addr → Option Int) (addr : Addr) : Addr → Option Int :=
  Function.update dirties addr (some ((dirties addr).getD 0 + 1))

/-- `journal.dirty`: one more count for the address, with no entry. -/
def dirty [DecidableEq Addr] (s : IntraBlockState Addr Hash) (addr : Addr) : IntraBlockState Addr Hash :=
  { s with journalDirties := incDirties s.journalDirties addr }

/-- `journal.append`: the entry goes at the end, and the account it dirties gets one more count. -/
def append [DecidableEq Addr] (s : IntraBlockState Addr Hash) (entry : JournalEntry Addr Hash) :
    IntraBlockState Addr Hash :=
  { s with
    journal := s.journal ++ [entry]
    journalDirties := match entry.dirtied with
      | some addr => incDirties s.journalDirties addr
      | none => s.journalDirties }

@[simp] theorem append_journal [DecidableEq Addr] (s : IntraBlockState Addr Hash) (entry : JournalEntry Addr Hash) :
    (s.append entry).journal = s.journal ++ [entry] := rfl

@[simp] theorem append_stateObjects [DecidableEq Addr] (s : IntraBlockState Addr Hash) (entry : JournalEntry Addr Hash) :
    (s.append entry).stateObjects = s.stateObjects := rfl

@[simp] theorem append_stateObjectsDirty [DecidableEq Addr] (s : IntraBlockState Addr Hash) (entry : JournalEntry Addr Hash) :
    (s.append entry).stateObjectsDirty = s.stateObjectsDirty := rfl

@[simp] theorem append_balanceInc [DecidableEq Addr] (s : IntraBlockState Addr Hash) (entry : JournalEntry Addr Hash) :
    (s.append entry).balanceInc = s.balanceInc := rfl

variable [DecidableEq Addr] [DecidableEq Hash] (env : StateEnv Addr Hash)

/-- A write through the pointer to the object live at `addr`. -/
def writeObject (s : IntraBlockState Addr Hash) (addr : Addr) (object : StateObject Addr Hash) :
    IntraBlockState Addr Hash :=
  { s with stateObjects := Function.update s.stateObjects addr (some object) }

@[simp] theorem writeObject_stateObjects (s : IntraBlockState Addr Hash) (addr : Addr) (object : StateObject Addr Hash) :
    (s.writeObject addr object).stateObjects = Function.update s.stateObjects addr (some object) := rfl

@[simp] theorem writeObject_stateObjectsDirty (s : IntraBlockState Addr Hash) (addr : Addr)
    (object : StateObject Addr Hash) : (s.writeObject addr object).stateObjectsDirty = s.stateObjectsDirty := rfl

@[simp] theorem writeObject_journal (s : IntraBlockState Addr Hash) (addr : Addr) (object : StateObject Addr Hash) :
    (s.writeObject addr object).journal = s.journal := rfl

@[simp] theorem writeObject_balanceInc (s : IntraBlockState Addr Hash) (addr : Addr) (object : StateObject Addr Hash) :
    (s.writeObject addr object).balanceInc = s.balanceInc := rfl

@[simp] theorem writeObject_stateReader (s : IntraBlockState Addr Hash) (addr : Addr) (object : StateObject Addr Hash) :
    (s.writeObject addr object).stateReader = s.stateReader := rfl

/-- The object as `setStateObject` stores it: with the increase of its balance not yet transferred. -/
def withIncrease (s : IntraBlockState Addr Hash) (addr : Addr) (object : StateObject Addr Hash) :
    StateObject Addr Hash :=
  match s.balanceInc addr with
  | some bi =>
    if !bi.transferred then { object with data := { object.data with balance := object.data.balance + bi.increase } }
    else object
  | none => object

/-- `setStateObject`: an increase not yet transferred moves into the object, and the transfer is journaled. -/
def setStateObject (s : IntraBlockState Addr Hash) (addr : Addr) (object : StateObject Addr Hash) :
    IntraBlockState Addr Hash :=
  match s.balanceInc addr with
  | some bi =>
    if !bi.transferred then
      { (s.append (.balanceIncreaseTransfer addr)) with
        balanceInc := Function.update s.balanceInc addr (some { bi with transferred := true }),
        stateObjects := Function.update s.stateObjects addr (some (s.withIncrease addr object)) }
    else s.writeObject addr object
  | none => s.writeObject addr object

/-- `createObject`: a new account at `addr`, journaled as a creation, or as a reset of the object it
replaces. -/
def createObject (s : IntraBlockState Addr Hash) (addr : Addr) (previous : Option (StateObject Addr Hash)) :
    StateObject Addr Hash × IntraBlockState Addr Hash :=
  let original := match previous with
    | none => StateAccount.zero env.zeroHash
    | some previous => previous.original
  let newobj := (StateObject.newObject env addr (StateAccount.zero env.zeroHash) original).setNonce 0
  let s := match previous with
    | none => s.append (.createObjectChange addr)
    | some previous => s.append (.resetObjectChange addr previous)
  (s.withIncrease addr newobj, s.setStateObject addr newobj)

/-- The block `getStateObject` runs for an address the database has no account for: a pending increase
makes the account. -/
def createIfIncreased (s : IntraBlockState Addr Hash) (addr : Addr) :
    Option (StateObject Addr Hash) × IntraBlockState Addr Hash :=
  match s.balanceInc addr with
  | some bi =>
    if !bi.transferred then
      let (obj, s) := s.createObject env addr none
      (some obj, s)
    else (none, s)
  | none => (none, s)

/-- `getStateObject`: the live object, or the account read from the database and made live. -/
def getStateObject (s : IntraBlockState Addr Hash) (addr : Addr) :
    Option (StateObject Addr Hash) × IntraBlockState Addr Hash :=
  match s.stateObjects addr with
  | some obj => (some obj, s)
  | none =>
    if s.nilAccounts addr then s.createIfIncreased env addr
    else
      match s.stateReader.readAccountData addr with
      | none => { s with nilAccounts := Function.update s.nilAccounts addr true }.createIfIncreased env addr
      | some account =>
        let obj := StateObject.newObject env addr account account
        (some (s.withIncrease addr obj), s.setStateObject addr obj)

/-- `GetOrNewStateObject`: a deleted or missing account is made afresh. -/
def getOrNewStateObject (s : IntraBlockState Addr Hash) (addr : Addr) :
    StateObject Addr Hash × IntraBlockState Addr Hash :=
  match s.getStateObject env addr with
  | (some obj, s) => if obj.deleted then s.createObject env addr (some obj) else (obj, s)
  | (none, s) => s.createObject env addr none

/-! ### The journaled methods of `stateObject` -/

/-- `stateObject.touch`: the RIPEMD consensus exception counts the account once more, with no entry. -/
def touch (s : IntraBlockState Addr Hash) (so : StateObject Addr Hash) : IntraBlockState Addr Hash :=
  let s := s.append (.touchChange so.address)
  if so.address = env.ripemd then s.dirty so.address else s

/-- `stateObject.SetBalance`. -/
def objectSetBalance (s : IntraBlockState Addr Hash) (addr : Addr) (so : StateObject Addr Hash)
    (amount : BitVec 256) : IntraBlockState Addr Hash :=
  (s.append (.balanceChange so.address so.data.balance)).writeObject addr (so.setBalance amount)

/-- `stateObject.AddBalance`: adding nothing touches an empty account. -/
def objectAddBalance (s : IntraBlockState Addr Hash) (addr : Addr) (so : StateObject Addr Hash)
    (amount : BitVec 256) : IntraBlockState Addr Hash :=
  if amount = 0 then (if so.empty env then s.touch env so else s)
  else s.objectSetBalance addr so (so.data.balance + amount)

/-- `stateObject.SubBalance`. -/
def objectSubBalance (s : IntraBlockState Addr Hash) (addr : Addr) (so : StateObject Addr Hash)
    (amount : BitVec 256) : IntraBlockState Addr Hash :=
  if amount = 0 then s else s.objectSetBalance addr so (so.data.balance - amount)

/-- `stateObject.SetNonce`. -/
def objectSetNonce (s : IntraBlockState Addr Hash) (addr : Addr) (so : StateObject Addr Hash)
    (nonce : UInt64) : IntraBlockState Addr Hash :=
  (s.append (.nonceChange so.address so.data.nonce)).writeObject addr (so.setNonce nonce)

/-- `stateObject.SetCode`: the code it replaces is loaded first, to be journaled. -/
def objectSetCode (s : IntraBlockState Addr Hash) (addr : Addr) (so : StateObject Addr Hash)
    (codeHash : Hash) (code : List UInt8) : IntraBlockState Addr Hash :=
  let (prevcode, so) := so.loadCode env s.stateReader
  (s.append (.codeChange so.address prevcode so.data.codeHash)).writeObject addr (so.setCode codeHash (some code))

/-- `stateObject.SetState`: a write of the value already there is not journaled. -/
def objectSetState (s : IntraBlockState Addr Hash) (addr : Addr) (so : StateObject Addr Hash) (key : Hash)
    (value : BitVec 256) : IntraBlockState Addr Hash :=
  match so.fakeStorage with
  | some fake =>
    (s.append (.fakeStorageChange so.address key ((fake key).getD 0))).writeObject addr
      { so with fakeStorage := some (Function.update fake key (some value)) }
  | none =>
    let (prev, so) := so.getState s.stateReader key
    if prev = value then s.writeObject addr so
    else (s.append (.storageChange so.address key prev)).writeObject addr (so.setState key value)

/-! ### Setters -/

/-- `AddBalance`: the increase of an account not yet read waits in `balanceInc`. -/
def addBalance (s : IntraBlockState Addr Hash) (addr : Addr) (amount : BitVec 256) : IntraBlockState Addr Hash :=
  let needAccount := (s.stateObjects addr).isSome || (decide (addr = env.ripemd) && amount == 0)
  if !needAccount then
    let bi := (s.balanceInc addr).getD ⟨0, false, 0⟩
    { s.append (.balanceIncrease addr amount) with
      balanceInc := Function.update s.balanceInc addr
        (some { bi with increase := bi.increase + amount, count := bi.count + 1 }) }
  else
    let (so, s) := s.getOrNewStateObject env addr
    s.objectAddBalance env addr so amount

/-- `SubBalance`. -/
def subBalance (s : IntraBlockState Addr Hash) (addr : Addr) (amount : BitVec 256) : IntraBlockState Addr Hash :=
  let (so, s) := s.getOrNewStateObject env addr
  s.objectSubBalance addr so amount

/-- `SetBalance`. -/
def setBalance (s : IntraBlockState Addr Hash) (addr : Addr) (amount : BitVec 256) : IntraBlockState Addr Hash :=
  let (so, s) := s.getOrNewStateObject env addr
  s.objectSetBalance addr so amount

/-- `SetNonce`. -/
def setNonce (s : IntraBlockState Addr Hash) (addr : Addr) (nonce : UInt64) : IntraBlockState Addr Hash :=
  let (so, s) := s.getOrNewStateObject env addr
  s.objectSetNonce addr so nonce

/-- `SetCode`. -/
def setCode (s : IntraBlockState Addr Hash) (addr : Addr) (code : List UInt8) : IntraBlockState Addr Hash :=
  let (so, s) := s.getOrNewStateObject env addr
  s.objectSetCode env addr so (env.keccak256Hash code) code

/-- `SetState`. -/
def setState (s : IntraBlockState Addr Hash) (addr : Addr) (key : Hash) (value : BitVec 256) :
    IntraBlockState Addr Hash :=
  let (so, s) := s.getOrNewStateObject env addr
  s.objectSetState addr so key value

/-- `CreateAccount`: a new account that keeps the balance of the one it replaces; a contract's account
takes the next incarnation. -/
def createAccount (s : IntraBlockState Addr Hash) (addr : Addr) (contractCreation : Bool) :
    IntraBlockState Addr Hash :=
  let (previous, s) := s.getStateObject env addr
  let prevInc : UInt16 :=
    if contractCreation then
      match previous with
      | some previous =>
        if previous.selfdestructed then previous.data.incarnation else s.stateReader.readAccountIncarnation addr
      | none => s.stateReader.readAccountIncarnation addr
    else 0
  let (newObj, s) := s.createObject env addr previous
  let newObj := match previous with
    | some previous => { newObj with data := { newObj.data with balance := previous.data.balance, initialised := true } }
    | none => newObj
  let newObj :=
    if contractCreation then { newObj with created := true, data := { newObj.data with incarnation := prevInc + 1 } }
    else { newObj with selfdestructed := false }
  s.writeObject addr newObj

/-- `Selfdestruct`: whether the account was there to destruct.  Its balance is cleared. -/
def selfdestruct (s : IntraBlockState Addr Hash) (addr : Addr) : Bool × IntraBlockState Addr Hash :=
  match s.getStateObject env addr with
  | (some so, s) =>
    if so.deleted then (false, s)
    else
      (true, (s.append (.selfdestructChange addr so.selfdestructed so.data.balance)).writeObject addr
        { so with selfdestructed := true, created := false, data := { so.data with balance := 0 } })
  | (none, s) => (false, s)

/-- `Suicide`, the same as `Selfdestruct` but for the tracer's reports. -/
def suicide (s : IntraBlockState Addr Hash) (addr : Addr) : Bool × IntraBlockState Addr Hash :=
  s.selfdestruct env addr

/-- `AddRefund`. -/
def addRefund (s : IntraBlockState Addr Hash) (gas : UInt64) : IntraBlockState Addr Hash :=
  { s.append (.refundChange s.refund) with refund := s.refund + gas }

/-- `SubRefund`: a refund below zero is an error, memoized in `savedErr`, and wraps. -/
def subRefund (s : IntraBlockState Addr Hash) (gas : UInt64) : IntraBlockState Addr Hash :=
  { s.append (.refundChange s.refund) with refund := s.refund - gas }

/-- `AddLog`: the log is stamped with the transaction, the block and its index. -/
def addLog (s : IntraBlockState Addr Hash) (log : Log Addr Hash) : IntraBlockState Addr Hash :=
  let log := { log with txHash := s.thash, blockHash := s.bhash, txIndex := s.txIndex, index := s.logSize }
  { s.append (.addLogChange s.thash) with
    logs := Function.update s.logs s.thash (s.logs s.thash ++ [log]),
    logSize := s.logSize + 1 }

/-- `AddAddressToAccessList`. -/
def addAddressToAccessList (s : IntraBlockState Addr Hash) (addr : Addr) : IntraBlockState Addr Hash :=
  let (addrMod, al) := s.accessList.addAddress addr
  let s := { s with accessList := al }
  if addrMod then s.append (.accessListAddAccountChange addr) else s

/-- `AddSlotToAccessList`. -/
def addSlotToAccessList (s : IntraBlockState Addr Hash) (addr : Addr) (slot : Hash) :
    Option (IntraBlockState Addr Hash) :=
  (s.accessList.addSlot addr slot).map fun ((addrMod, slotMod), al) =>
    let s := { s with accessList := al }
    let s := if addrMod then s.append (.accessListAddAccountChange addr) else s
    if slotMod then s.append (.accessListAddSlotChange addr slot) else s

/-! ### Reads -/

/-- `Exist`: a suicided account still exists. -/
def exist (s : IntraBlockState Addr Hash) (addr : Addr) : Bool × IntraBlockState Addr Hash :=
  match s.getStateObject env addr with
  | (some so, s) => (!so.deleted, s)
  | (none, s) => (false, s)

/-- `Empty`. -/
def empty (s : IntraBlockState Addr Hash) (addr : Addr) : Bool × IntraBlockState Addr Hash :=
  match s.getStateObject env addr with
  | (some so, s) => (so.deleted || so.empty env, s)
  | (none, s) => (true, s)

/-- `GetBalance`. -/
def getBalance (s : IntraBlockState Addr Hash) (addr : Addr) : BitVec 256 × IntraBlockState Addr Hash :=
  match s.getStateObject env addr with
  | (some so, s) => (if so.deleted then 0 else so.data.balance, s)
  | (none, s) => (0, s)

/-- `GetNonce`. -/
def getNonce (s : IntraBlockState Addr Hash) (addr : Addr) : UInt64 × IntraBlockState Addr Hash :=
  match s.getStateObject env addr with
  | (some so, s) => (if so.deleted then 0 else so.data.nonce, s)
  | (none, s) => (0, s)

/-- `GetCode`; no code reads as the empty code. -/
def getCode (s : IntraBlockState Addr Hash) (addr : Addr) : List UInt8 × IntraBlockState Addr Hash :=
  match s.getStateObject env addr with
  | (some so, s) =>
    if so.deleted then ([], s)
    else
      let (code, so) := so.loadCode env s.stateReader
      (code.getD [], s.writeObject addr so)
  | (none, s) => ([], s)

/-- `GetCodeSize`: the size of loaded code, or the size the database reports. -/
def getCodeSize (s : IntraBlockState Addr Hash) (addr : Addr) : ℕ × IntraBlockState Addr Hash :=
  match s.getStateObject env addr with
  | (some so, s) =>
    if so.deleted then (0, s)
    else
      match so.code with
      | some code => (code.length, s)
      | none => (s.stateReader.readAccountCodeSize addr so.data.incarnation so.data.codeHash, s)
  | (none, s) => (0, s)

/-- `GetCodeHash`. -/
def getCodeHash (s : IntraBlockState Addr Hash) (addr : Addr) : Hash × IntraBlockState Addr Hash :=
  match s.getStateObject env addr with
  | (some so, s) => (if so.deleted then env.zeroHash else so.data.codeHash, s)
  | (none, s) => (env.zeroHash, s)

/-- `GetState`. -/
def getState (s : IntraBlockState Addr Hash) (addr : Addr) (key : Hash) : BitVec 256 × IntraBlockState Addr Hash :=
  match s.getStateObject env addr with
  | (some so, s) =>
    if so.deleted then (0, s)
    else
      let (value, so) := so.getState s.stateReader key
      (value, s.writeObject addr so)
  | (none, s) => (0, s)

/-- `GetCommittedState`. -/
def getCommittedState (s : IntraBlockState Addr Hash) (addr : Addr) (key : Hash) :
    BitVec 256 × IntraBlockState Addr Hash :=
  match s.getStateObject env addr with
  | (some so, s) =>
    if so.deleted then (0, s)
    else
      let (value, so) := so.getCommittedState s.stateReader key
      (value, s.writeObject addr so)
  | (none, s) => (0, s)

/-- `HasSelfdestructed`: a contract created in this block has not destructed. -/
def hasSelfdestructed (s : IntraBlockState Addr Hash) (addr : Addr) : Bool × IntraBlockState Addr Hash :=
  match s.getStateObject env addr with
  | (some so, s) => (!so.deleted && !so.created && so.selfdestructed, s)
  | (none, s) => (false, s)

/-- `HasSuicided`, the same as `HasSelfdestructed`. -/
def hasSuicided (s : IntraBlockState Addr Hash) (addr : Addr) : Bool × IntraBlockState Addr Hash :=
  s.hasSelfdestructed env addr

/-- `GetRefund`. -/
def getRefund (s : IntraBlockState Addr Hash) : UInt64 :=
  s.refund

/-- `GetLogs`. -/
def getLogs (s : IntraBlockState Addr Hash) (hash : Hash) : List (Log Addr Hash) :=
  s.logs hash

/-- `AddressInAccessList`. -/
def addressInAccessList (s : IntraBlockState Addr Hash) (addr : Addr) : Bool :=
  s.accessList.containsAddress addr

/-- `SlotInAccessList`. -/
def slotInAccessList (s : IntraBlockState Addr Hash) (addr : Addr) (slot : Hash) : Option (Bool × Bool) :=
  s.accessList.contains addr slot

/-- `Snapshot`: the id of a new revision at the journal's current length. -/
def snapshot (s : IntraBlockState Addr Hash) : ℕ × IntraBlockState Addr Hash :=
  (s.nextRevisionID,
    { s with nextRevisionID := s.nextRevisionID + 1,
             validRevisions := s.validRevisions ++ [⟨s.nextRevisionID, s.journal.length⟩] })

/-- `BeginWriteCodes`. -/
def beginWriteCodes (s : IntraBlockState Addr Hash) : IntraBlockState Addr Hash :=
  { s with codeMap := fun _ => none }

/-- `CodeHashes`, called at the end of a block: the code of every dirty object whose code was set in this
block goes into `codeMap`.  `order` is the order in which `range` visits `stateObjects`, which Go leaves
unspecified. -/
def codeHashes (s : IntraBlockState Addr Hash) (order : List Addr) : Hash → Option (List UInt8) :=
  order.foldl (fun codeMap addr =>
    match s.stateObjects addr with
    | some so =>
      if s.stateObjectsDirty addr && (so.created || !so.selfdestructed) && so.code.isSome && so.dirtyCode then
        Function.update codeMap so.data.codeHash so.code
      else codeMap
    | none => codeMap) s.codeMap

/-- The calls a transaction's execution makes between a snapshot and its revert: the writes of the state,
and the reads, whose results are dropped but whose loads stay. -/
inductive Call (Addr Hash : Type) where
  | addBalance (addr : Addr) (amount : BitVec 256)
  | subBalance (addr : Addr) (amount : BitVec 256)
  | setBalance (addr : Addr) (amount : BitVec 256)
  | setNonce (addr : Addr) (nonce : UInt64)
  | setCode (addr : Addr) (code : List UInt8)
  | setState (addr : Addr) (key : Hash) (value : BitVec 256)
  | createAccount (addr : Addr) (contractCreation : Bool)
  | suicide (addr : Addr)
  | selfdestruct (addr : Addr)
  | addRefund (gas : UInt64)
  | subRefund (gas : UInt64)
  | addLog (log : Log Addr Hash)
  | addAddressToAccessList (addr : Addr)
  | addSlotToAccessList (addr : Addr) (slot : Hash)
  | getBalance (addr : Addr)
  | getNonce (addr : Addr)
  | getCode (addr : Addr)
  | getState (addr : Addr) (key : Hash)
  | exist (addr : Addr)
  | empty (addr : Addr)

/-- The state after a call; only `AddSlotToAccessList` can panic. -/
def call (s : IntraBlockState Addr Hash) : Call Addr Hash → Option (IntraBlockState Addr Hash)
  | .addBalance addr amount => some (s.addBalance env addr amount)
  | .subBalance addr amount => some (s.subBalance env addr amount)
  | .setBalance addr amount => some (s.setBalance env addr amount)
  | .setNonce addr nonce => some (s.setNonce env addr nonce)
  | .setCode addr code => some (s.setCode env addr code)
  | .setState addr key value => some (s.setState env addr key value)
  | .createAccount addr contractCreation => some (s.createAccount env addr contractCreation)
  | .suicide addr => some (s.suicide env addr).2
  | .selfdestruct addr => some (s.selfdestruct env addr).2
  | .addRefund gas => some (s.addRefund gas)
  | .subRefund gas => some (s.subRefund gas)
  | .addLog log => some (s.addLog log)
  | .addAddressToAccessList addr => some (s.addAddressToAccessList addr)
  | .addSlotToAccessList addr slot => s.addSlotToAccessList addr slot
  | .getBalance addr => some (s.getBalance env addr).2
  | .getNonce addr => some (s.getNonce env addr).2
  | .getCode addr => some (s.getCode env addr).2
  | .getState addr key => some (s.getState env addr key).2
  | .exist addr => some (s.exist env addr).2
  | .empty addr => some (s.empty env addr).2

/-- The calls one after the other. -/
def run (s : IntraBlockState Addr Hash) : List (Call Addr Hash) → Option (IntraBlockState Addr Hash)
  | [] => some s
  | c :: cs => (s.call env c).bind fun s => s.run cs

end IntraBlockState

end AmazeChain.State
