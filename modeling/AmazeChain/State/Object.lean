import Mathlib.Logic.Function.Basic
import Mathlib.Data.Nat.Notation
import Mathlib.Tactic.SplitIfs
import Mathlib.Tactic.Set

/-!
# Accounts and state objects

`account.StateAccount` and the `stateObject` of `modules/state/state_object.go`: the account data an
`IntraBlockState` keeps for an address it has read, with the code and the storage it has loaded.  This
module holds what an object does on its own; the methods that also write the journal of the state the
object belongs to (`SetBalance`, `SetState`, …) are in `IntraBlockState`.

Values are `uint256.Int`, the 256-bit words `BitVec 256` here; nonces are `uint64` and incarnations
`uint16`, so that their arithmetic wraps as Go's does.  A Go map is a function to `Option`.  The state reader
(`StateReader`, `modules/state/database.go`) returns the decoded storage word and never fails; its error
paths, the snapshot reader `snap` and the storage root `Root` are left out.  `blockOriginStorage` keeps the
values read from the database for the whole block; `originStorage` is overwritten when a transaction is
finalised (`updateTrie`).
-/

namespace AmazeChain.State

/-- `account.StateAccount`, without the storage root `Root`. -/
structure StateAccount (Hash : Type) where
  initialised : Bool
  nonce : UInt64
  balance : BitVec 256
  codeHash : Hash
  incarnation : UInt16
  deriving DecidableEq, Repr

/-- The hash functions and constants the state reads: `crypto.Keccak256Hash`, the zero hash
`types.Hash{}` and the address `ripemd`. -/
structure StateEnv (Addr Hash : Type) where
  keccak256Hash : List UInt8 → Hash
  zeroHash : Hash
  ripemd : Addr

/-- `emptyCodeHashH`, the hash of no code. -/
def StateEnv.emptyCodeHash {Addr Hash : Type} (env : StateEnv Addr Hash) : Hash :=
  env.keccak256Hash []

/-- `account.StateAccount{}`. -/
def StateAccount.zero {Hash : Type} (zeroHash : Hash) : StateAccount Hash :=
  ⟨false, 0, 0, zeroHash, 0⟩

/-- `StateReader`: the accounts, storage and code the block starts from. -/
structure StateReader (Addr Hash : Type) where
  readAccountData : Addr → Option (StateAccount Hash)
  readAccountStorage : Addr → UInt16 → Hash → Option (BitVec 256)
  readAccountCode : Addr → UInt16 → Hash → Option (List UInt8)
  readAccountCodeSize : Addr → UInt16 → Hash → ℕ
  readAccountIncarnation : Addr → UInt16

/-- `Storage`, a map from keys to words. -/
def Storage (Hash : Type) : Type := Hash → Option (BitVec 256)

/-- `stateObject`; `code` is `none` while the code is not loaded (Go's nil slice). -/
structure StateObject (Addr Hash : Type) where
  address : Addr
  data : StateAccount Hash
  original : StateAccount Hash
  code : Option (List UInt8)
  originStorage : Storage Hash
  blockOriginStorage : Storage Hash
  dirtyStorage : Storage Hash
  fakeStorage : Option (Storage Hash)
  dirtyCode : Bool
  selfdestructed : Bool
  deleted : Bool
  created : Bool

namespace StateObject

variable {Addr Hash : Type}

/-- `setBalance`. -/
def setBalance (so : StateObject Addr Hash) (amount : BitVec 256) : StateObject Addr Hash :=
  { so with data := { so.data with balance := amount, initialised := true } }

/-- `setNonce`. -/
def setNonce (so : StateObject Addr Hash) (nonce : UInt64) : StateObject Addr Hash :=
  { so with data := { so.data with nonce } }

/-- `setCode`: the code is marked as updated in this block. -/
def setCode (so : StateObject Addr Hash) (codeHash : Hash) (code : Option (List UInt8)) :
    StateObject Addr Hash :=
  { so with code, data := { so.data with codeHash }, dirtyCode := true }

@[simp] theorem setBalance_balance (so : StateObject Addr Hash) (amount : BitVec 256) :
    (so.setBalance amount).data.balance = amount := rfl

@[simp] theorem setBalance_address (so : StateObject Addr Hash) (amount : BitVec 256) :
    (so.setBalance amount).address = so.address := rfl

@[simp] theorem setNonce_address (so : StateObject Addr Hash) (nonce : UInt64) :
    (so.setNonce nonce).address = so.address := rfl

@[simp] theorem setCode_address (so : StateObject Addr Hash) (codeHash : Hash) (code : Option (List UInt8)) :
    (so.setCode codeHash code).address = so.address := rfl

variable [DecidableEq Hash] (env : StateEnv Addr Hash)

/-- `empty`: no nonce, no balance and no code (EIP-161). -/
def empty (so : StateObject Addr Hash) : Bool :=
  so.data.nonce == 0 && so.data.balance == 0 && decide (so.data.codeHash = env.emptyCodeHash)

/-- `newObject`: an account read from the database or made afresh; an account not yet initialised has no
balance, and a zero code hash is the hash of no code. -/
def newObject (address : Addr) (data original : StateAccount Hash) : StateObject Addr Hash :=
  let data := if !data.initialised then { data with balance := 0, initialised := true } else data
  let data := if data.codeHash = env.zeroHash then { data with codeHash := env.emptyCodeHash } else data
  { address, data, original, code := none, originStorage := fun _ => none, blockOriginStorage := fun _ => none,
    dirtyStorage := fun _ => none, fakeStorage := none, dirtyCode := false, selfdestructed := false, deleted := false, created := false }

@[simp] theorem newObject_address (address : Addr) (data original : StateAccount Hash) :
    (newObject env address data original).address = address := rfl

@[simp] theorem newObject_original (address : Addr) (data original : StateAccount Hash) :
    (newObject env address data original).original = original := rfl

@[simp] theorem newObject_code (address : Addr) (data original : StateAccount Hash) :
    (newObject env address data original).code = none := rfl

@[simp] theorem newObject_originStorage (address : Addr) (data original : StateAccount Hash) :
    (newObject env address data original).originStorage = fun _ => none := rfl

@[simp] theorem newObject_dirtyStorage (address : Addr) (data original : StateAccount Hash) :
    (newObject env address data original).dirtyStorage = fun _ => none := rfl

@[simp] theorem newObject_fakeStorage (address : Addr) (data original : StateAccount Hash) :
    (newObject env address data original).fakeStorage = none := rfl

@[simp] theorem newObject_selfdestructed (address : Addr) (data original : StateAccount Hash) :
    (newObject env address data original).selfdestructed = false := rfl

@[simp] theorem newObject_deleted (address : Addr) (data original : StateAccount Hash) :
    (newObject env address data original).deleted = false := rfl

@[simp] theorem newObject_created (address : Addr) (data original : StateAccount Hash) :
    (newObject env address data original).created = false := rfl

/-- Reading an account keeps its incarnation. -/
@[simp] theorem newObject_incarnation (address : Addr) (data original : StateAccount Hash) :
    (newObject env address data original).data.incarnation = data.incarnation := by
  simp only [newObject]
  split <;> split <;> rfl

/-- `setState`: a write to the dirty storage. -/
def setState (so : StateObject Addr Hash) (key : Hash) (value : BitVec 256) : StateObject Addr Hash :=
  { so with dirtyStorage := Function.update so.dirtyStorage key (some value) }

@[simp] theorem setState_address (so : StateObject Addr Hash) (key : Hash) (value : BitVec 256) :
    (so.setState key value).address = so.address := rfl

/-- `GetCommittedState`: the value at the start of the block, read from the database once and kept in
`originStorage` and `blockOriginStorage`; a contract created in this block has none. -/
def getCommittedState (reader : StateReader Addr Hash) (so : StateObject Addr Hash) (key : Hash) :
    BitVec 256 × StateObject Addr Hash :=
  match so.fakeStorage with
  | some fake => ((fake key).getD 0, so)
  | none =>
    match so.originStorage key with
    | some value => (value, so)
    | none =>
      if so.created then (0, so)
      else
        let value := (reader.readAccountStorage so.address so.data.incarnation key).getD 0
        (value, { so with
          originStorage := Function.update so.originStorage key (some value)
          blockOriginStorage := Function.update so.blockOriginStorage key (some value) })

/-- `GetState`: the dirty value if there is one, the committed one otherwise. -/
def getState (reader : StateReader Addr Hash) (so : StateObject Addr Hash) (key : Hash) :
    BitVec 256 × StateObject Addr Hash :=
  match so.fakeStorage with
  | some fake => ((fake key).getD 0, so)
  | none =>
    match so.dirtyStorage key with
    | some value => (value, so)
    | none => so.getCommittedState reader key

/-- `so'` reads what `so` reads: it is `so` after loads of its storage. -/
structure SameReads (reader : StateReader Addr Hash) (so so' : StateObject Addr Hash) : Prop where
  deleted : so'.deleted = so.deleted
  fakeStorage : so'.fakeStorage = so.fakeStorage
  state : ∀ key, (so'.getState reader key).1 = (so.getState reader key).1
  committed : ∀ key, (so'.getCommittedState reader key).1 = (so.getCommittedState reader key).1

/-- A load of a committed value only fills the two caches of the values at the start of the block. -/
theorem getCommittedState_snd (reader : StateReader Addr Hash) (so : StateObject Addr Hash) (key : Hash) :
    ∃ origin blockOrigin, (so.getCommittedState reader key).2 =
      { so with originStorage := origin, blockOriginStorage := blockOrigin } := by
  unfold getCommittedState
  split
  · exact ⟨so.originStorage, so.blockOriginStorage, rfl⟩
  · split
    · exact ⟨so.originStorage, so.blockOriginStorage, rfl⟩
    · split_ifs
      · exact ⟨so.originStorage, so.blockOriginStorage, rfl⟩
      · exact ⟨_, _, rfl⟩

@[simp] theorem getCommittedState_address (reader : StateReader Addr Hash) (so : StateObject Addr Hash)
    (key : Hash) : (so.getCommittedState reader key).2.address = so.address := by
  obtain ⟨origin, blockOrigin, h⟩ := getCommittedState_snd reader so key
  rw [h]

@[simp] theorem getState_address (reader : StateReader Addr Hash) (so : StateObject Addr Hash) (key : Hash) :
    (so.getState reader key).2.address = so.address := by
  unfold getState
  split
  · rfl
  · split
    · rfl
    · exact getCommittedState_address reader so key

/-- The committed value: the cached one, or else none for a contract created in this block, or else the
database's. -/
theorem getCommittedState_fst (reader : StateReader Addr Hash) (so : StateObject Addr Hash)
    (hf : so.fakeStorage = none) (key : Hash) :
    (so.getCommittedState reader key).1 = (so.originStorage key).getD
      (if so.created then 0 else (reader.readAccountStorage so.address so.data.incarnation key).getD 0) := by
  rcases ho : so.originStorage key with _ | v
  · by_cases hc : so.created <;> simp [getCommittedState, hf, ho, hc]
  · simp [getCommittedState, hf, ho]

/-- A load of the committed value at `key` changes no committed value: the cache takes the value the
database gives, which is what the next read would have loaded. -/
theorem getCommittedState_load (reader : StateReader Addr Hash) (so : StateObject Addr Hash) (key key' : Hash) :
    ((so.getCommittedState reader key).2.getCommittedState reader key').1 = (so.getCommittedState reader key').1 := by
  rcases hf : so.fakeStorage with _ | fake
  · rcases ho : so.originStorage key with _ | v
    · by_cases hc : so.created
      · have hself : (so.getCommittedState reader key).2 = so := by simp [getCommittedState, hf, ho, hc]
        rw [hself]
      · -- the load caches the database's value at `key`
        set value := (reader.readAccountStorage so.address so.data.incarnation key).getD 0 with hvalue
        have hload : (so.getCommittedState reader key).2 =
            { so with originStorage := Function.update so.originStorage key (some value),
                      blockOriginStorage := Function.update so.blockOriginStorage key (some value) } := by
          simp [getCommittedState, hf, ho, hc, hvalue]
        have hcache : (so.getCommittedState reader key).2.originStorage key' =
            if key' = key then some value else so.originStorage key' := by
          rw [hload]
          by_cases hk : key' = key
          · subst hk
            rw [if_pos rfl]
            exact Function.update_self _ _ _
          · rw [if_neg hk]
            exact Function.update_of_ne hk _ _
        have hf' : (so.getCommittedState reader key).2.fakeStorage = none := by rw [hload]; exact hf
        rw [getCommittedState_fst reader _ hf', getCommittedState_fst reader so hf, hcache]
        by_cases hk : key' = key
        · subst hk
          simp [ho, hc, hload, hvalue]
        · simp [hk, hload]
    · -- a cached value loads nothing
      have hself : (so.getCommittedState reader key).2 = so := by simp [getCommittedState, hf, ho]
      rw [hself]
  · have hself : (so.getCommittedState reader key).2 = so := by simp [getCommittedState, hf]
    rw [hself]

/-- `GetState` reads the dirty value, or else the committed one. -/
theorem getState_fst (reader : StateReader Addr Hash) (so : StateObject Addr Hash) (hf : so.fakeStorage = none)
    (key : Hash) : (so.getState reader key).1 = ((so.dirtyStorage key).getD (so.getCommittedState reader key).1) := by
  rcases hd : so.dirtyStorage key with _ | v <;> simp [getState, hf, hd]

theorem sameReads_getCommittedState (reader : StateReader Addr Hash) (so : StateObject Addr Hash) (key : Hash) :
    SameReads reader so (so.getCommittedState reader key).2 := by
  obtain ⟨origin, blockOrigin, h⟩ := getCommittedState_snd reader so key
  have hc := getCommittedState_load reader so key
  refine ⟨by rw [h], by rw [h], fun key' => ?_, hc⟩
  rcases hf : so.fakeStorage with _ | fake
  · have hf' : (so.getCommittedState reader key).2.fakeStorage = none := by rw [h]; exact hf
    rw [getState_fst reader _ hf', getState_fst reader so hf, hc key']
    rw [h]
  · have hf' : (so.getCommittedState reader key).2.fakeStorage = some fake := by rw [h]; exact hf
    simp [getState, hf, hf']

theorem sameReads_getState (reader : StateReader Addr Hash) (so : StateObject Addr Hash) (key : Hash) :
    SameReads reader so (so.getState reader key).2 := by
  -- a read of a fake or dirty value loads nothing
  have hself : SameReads reader so so := ⟨rfl, rfl, fun _ => rfl, fun _ => rfl⟩
  unfold getState
  split
  · exact hself
  · split
    · exact hself
    · exact sameReads_getCommittedState reader so key

/-- `SetState` changes no committed value. -/
theorem setState_getCommittedState (reader : StateReader Addr Hash) (so : StateObject Addr Hash) (key key' : Hash)
    (value : BitVec 256) :
    ((so.setState key value).getCommittedState reader key').1 = (so.getCommittedState reader key').1 := by
  -- the committed value reads neither the dirty storage nor anything `setState` writes
  rcases hf : so.fakeStorage with _ | fake
  · rcases ho : so.originStorage key' with _ | v
    · by_cases hc : so.created <;> simp [getCommittedState, setState, hf, ho, hc]
    · simp [getCommittedState, setState, hf, ho]
  · simp [getCommittedState, setState, hf]

/-- `SetState` changes the current value at `key` only. -/
theorem setState_getState (reader : StateReader Addr Hash) (so : StateObject Addr Hash) (hf : so.fakeStorage = none)
    (key key' : Hash) (value : BitVec 256) :
    ((so.setState key value).getState reader key').1 = if key' = key then value else (so.getState reader key').1 := by
  have hf' : (so.setState key value).fakeStorage = none := hf
  rw [getState_fst reader _ hf', getState_fst reader so hf, setState_getCommittedState]
  by_cases hk : key' = key
  · subst hk
    have hd : (so.setState key' value).dirtyStorage key' = some value := Function.update_self _ _ _
    rw [hd, if_pos rfl, Option.getD_some]
  · have hd : (so.setState key value).dirtyStorage key' = so.dirtyStorage key' := Function.update_of_ne hk _ _
    rw [hd, if_neg hk]

/-- `Code()`: the code, loaded from the database once unless the code hash is that of no code. -/
def loadCode (reader : StateReader Addr Hash) (so : StateObject Addr Hash) :
    Option (List UInt8) × StateObject Addr Hash :=
  match so.code with
  | some code => (some code, so)
  | none =>
    if so.data.codeHash = env.emptyCodeHash then (none, so)
    else
      let code := reader.readAccountCode so.address so.data.incarnation so.data.codeHash
      (code, { so with code })

@[simp] theorem loadCode_address (reader : StateReader Addr Hash) (so : StateObject Addr Hash) :
    (so.loadCode env reader).2.address = so.address := by
  unfold loadCode
  split
  · rfl
  · split_ifs <;> rfl

end StateObject

end AmazeChain.State
