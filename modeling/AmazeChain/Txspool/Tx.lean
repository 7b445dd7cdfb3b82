import Mathlib.Data.List.Basic
import Mathlib.Order.Basic
import Mathlib.Algebra.GroupWithZero.Nat

/-!
# Transactions

The transaction data the pool reads (`common/transaction`): the three transaction types with their fields, the
accessors that read a fee or the access list the same way for every type, `Cost()`, the sender field `From`
and `AsMessage`.  Every field but `From` goes into `Hash()` (`legacy_tx.go`, `access_list.go`,
`dynamic_fee_tx.go`), so the model keeps the sender beside the hashed part and takes the RLP hash of the hashed
part as a function `keccak`.

Fees and values are `uint256`, gas limits and nonces `uint64`; they are naturals here, and the sums and
products the source computes in `uint256` are taken modulo `2 ^ 256`.  `IntrinsicGas`
(`internal/state_transition.go`) is the intrinsic gas check of `validateTx`.
-/

namespace AmazeChain.Txspool

/-- `2 ^ 256`: the modulus of `uint256` arithmetic. -/
def u256 : ℕ := 2 ^ 256

/-- `2 ^ 64`: the modulus of `uint64` arithmetic. -/
def u64 : ℕ := 2 ^ 64

/-- `math.MaxUint64`. -/
def maxUint64 : ℕ := 2 ^ 64 - 1

inductive TxType where
  | legacyTxType
  | accessListTxType
  | dynamicFeeTxType
  deriving DecidableEq, Repr

/-- An entry of an access list: an account and the storage keys of it the transaction reads. -/
structure AccessTuple (Addr Hash : Type) where
  address : Addr
  storageKeys : List Hash
  deriving DecidableEq, Repr

/-- The hashed part of a transaction of each type. -/
inductive TxData (Addr Hash : Type) where
  | legacyTx (nonce gasPrice gas : ℕ) (toAddr : Option Addr) (value : ℕ) (data : List UInt8) (v r s : ℕ)
  | accessListTx (chainID nonce gasPrice gas : ℕ) (toAddr : Option Addr) (value : ℕ) (data : List UInt8)
      (accessList : List (AccessTuple Addr Hash)) (v r s : ℕ)
  | dynamicFeeTx (chainID nonce gasTipCap gasFeeCap gas : ℕ) (toAddr : Option Addr) (value : ℕ)
      (data : List UInt8) (accessList : List (AccessTuple Addr Hash)) (v r s : ℕ)
  deriving DecidableEq, Repr

/-- A transaction: its hashed part and its sender field `From`. -/
structure Transaction (Addr Hash : Type) where
  inner : TxData Addr Hash
  sender : Addr
  deriving DecidableEq, Repr

namespace TxData

variable {Addr Hash : Type}

def txType : TxData Addr Hash → TxType
  | legacyTx .. => .legacyTxType
  | accessListTx .. => .accessListTxType
  | dynamicFeeTx .. => .dynamicFeeTxType

def nonce : TxData Addr Hash → ℕ
  | legacyTx nonce .. => nonce
  | accessListTx _ nonce .. => nonce
  | dynamicFeeTx _ nonce .. => nonce

/-- `gasPrice()`: the fee cap of a dynamic fee transaction. -/
def gasPrice : TxData Addr Hash → ℕ
  | legacyTx _ gasPrice .. => gasPrice
  | accessListTx _ _ gasPrice .. => gasPrice
  | dynamicFeeTx _ _ _ gasFeeCap .. => gasFeeCap

def gasTipCap : TxData Addr Hash → ℕ
  | legacyTx _ gasPrice .. => gasPrice
  | accessListTx _ _ gasPrice .. => gasPrice
  | dynamicFeeTx _ _ gasTipCap .. => gasTipCap

def gasFeeCap : TxData Addr Hash → ℕ
  | legacyTx _ gasPrice .. => gasPrice
  | accessListTx _ _ gasPrice .. => gasPrice
  | dynamicFeeTx _ _ _ gasFeeCap .. => gasFeeCap

def gas : TxData Addr Hash → ℕ
  | legacyTx _ _ gas .. => gas
  | accessListTx _ _ _ gas .. => gas
  | dynamicFeeTx _ _ _ _ gas .. => gas

/-- `to()`: the recipient, none for a contract creation. -/
def toAddr : TxData Addr Hash → Option Addr
  | legacyTx _ _ _ toAddr .. => toAddr
  | accessListTx _ _ _ _ toAddr .. => toAddr
  | dynamicFeeTx _ _ _ _ _ toAddr .. => toAddr

def value : TxData Addr Hash → ℕ
  | legacyTx _ _ _ _ value .. => value
  | accessListTx _ _ _ _ _ value .. => value
  | dynamicFeeTx _ _ _ _ _ _ value .. => value

def data : TxData Addr Hash → List UInt8
  | legacyTx _ _ _ _ _ data .. => data
  | accessListTx _ _ _ _ _ _ data .. => data
  | dynamicFeeTx _ _ _ _ _ _ _ data .. => data

/-- `accessList()`: none for a legacy transaction. -/
def accessList : TxData Addr Hash → List (AccessTuple Addr Hash)
  | legacyTx .. => []
  | accessListTx _ _ _ _ _ _ _ accessList .. => accessList
  | dynamicFeeTx _ _ _ _ _ _ _ _ accessList .. => accessList

end TxData

namespace Transaction

variable {Addr Hash : Type}

def txType (tx : Transaction Addr Hash) : TxType := tx.inner.txType
def nonce (tx : Transaction Addr Hash) : ℕ := tx.inner.nonce
def gasPrice (tx : Transaction Addr Hash) : ℕ := tx.inner.gasPrice
def gasTipCap (tx : Transaction Addr Hash) : ℕ := tx.inner.gasTipCap
def gasFeeCap (tx : Transaction Addr Hash) : ℕ := tx.inner.gasFeeCap
def gas (tx : Transaction Addr Hash) : ℕ := tx.inner.gas
def toAddr (tx : Transaction Addr Hash) : Option Addr := tx.inner.toAddr
def value (tx : Transaction Addr Hash) : ℕ := tx.inner.value
def data (tx : Transaction Addr Hash) : List UInt8 := tx.inner.data
def accessList (tx : Transaction Addr Hash) : List (AccessTuple Addr Hash) := tx.inner.accessList

/-- `Hash()`: the hash of every field but the sender. -/
def hash (keccak : TxData Addr Hash → Hash) (tx : Transaction Addr Hash) : Hash := keccak tx.inner

/-- `Cost()`: `gasPrice * gas + value` in `uint256`. -/
def cost (tx : Transaction Addr Hash) : ℕ := (tx.gasPrice * tx.gas % u256 + tx.value) % u256

/-- Two transactions that differ only in the sender have the same hash. -/
theorem hash_eq_of_inner_eq (keccak : TxData Addr Hash → Hash) {tx tx' : Transaction Addr Hash}
    (h : tx.inner = tx'.inner) : tx.hash keccak = tx'.hash keccak := by
  rw [hash, hash, h]

end Transaction

/-- The message a transaction is executed as (`Message`), with the fields `AsMessage` sets. -/
structure Message (Addr Hash : Type) where
  sender : Addr
  toAddr : Option Addr
  nonce : ℕ
  amount : ℕ
  gasLimit : ℕ
  gasPrice : ℕ
  feeCap : ℕ
  tip : ℕ
  data : List UInt8
  accessList : List (AccessTuple Addr Hash)
  checkNonce : Bool
  isFree : Bool
  deriving DecidableEq, Repr

/-- `AsMessage`: the message of a transaction, its price the effective one under a base fee.  The sender is
the transaction's `From` field: the recovery through the signer is commented out in the source. -/
def Transaction.asMessage {Addr Hash : Type} (tx : Transaction Addr Hash) (baseFee : Option ℕ) :
    Message Addr Hash :=
  let gasPrice := match baseFee with
    | none => tx.gasPrice
    | some baseFee => min ((tx.gasTipCap + baseFee) % u256) tx.gasFeeCap
  { sender := tx.sender, toAddr := tx.toAddr, nonce := tx.nonce, amount := tx.value, gasLimit := tx.gas,
    gasPrice := gasPrice, feeCap := tx.gasFeeCap, tip := tx.gasTipCap, data := tx.data,
    accessList := tx.accessList, checkNonce := false, isFree := false }

/-! ### Intrinsic gas -/

def txGas : ℕ := 21000
def txGasContractCreation : ℕ := 53000
def txDataZeroGas : ℕ := 4
def txDataNonZeroGasFrontier : ℕ := 68
def txDataNonZeroGasEIP2028 : ℕ := 16
def initCodeWordGas : ℕ := 2
def txAccessListAddressGas : ℕ := 2400
def txAccessListStorageKeyGas : ℕ := 1900

/-- `toWordSize`: the number of 32-byte words of a size, saturating near `2 ^ 64`. -/
def toWordSize (size : ℕ) : ℕ :=
  if size > maxUint64 - 31 then maxUint64 / 32 + 1 else (size + 31) / 32

/-- The error of `IntrinsicGas`. -/
inductive GasError where
  | errGasUintOverflow
  deriving DecidableEq, Repr

/-- `IntrinsicGas`: the gas a transaction pays before execution, for its data and its access list. -/
def intrinsicGas {Addr Hash : Type} (data : List UInt8) (accessList : List (AccessTuple Addr Hash))
    (isContractCreation isHomestead isEIP2028 isEIP3860 : Bool) : Except GasError ℕ := do
  let mut gas := if isContractCreation && isHomestead then txGasContractCreation else txGas
  let dataLen := data.length
  if dataLen > 0 then
    let nz := (data.filter (· ≠ 0)).length
    let nonZeroGas := if isEIP2028 then txDataNonZeroGasEIP2028 else txDataNonZeroGasFrontier
    if (maxUint64 - gas) / nonZeroGas < nz then throw .errGasUintOverflow
    gas := gas + nz * nonZeroGas
    let z := dataLen - nz
    if (maxUint64 - gas) / txDataZeroGas < z then throw .errGasUintOverflow
    gas := gas + z * txDataZeroGas
    if isContractCreation && isEIP3860 then
      let lenWords := toWordSize dataLen
      if (maxUint64 - gas) / initCodeWordGas < lenWords then throw .errGasUintOverflow
      gas := gas + lenWords * initCodeWordGas
  -- the access list charges are added in unchecked `uint64` arithmetic
  gas := (gas + accessList.length * txAccessListAddressGas) % u64
  gas := (gas + (accessList.map fun t => t.storageKeys.length).sum * txAccessListStorageKeyGas) % u64
  pure gas

/-- Below `2 ^ 32` bytes of data and with no access list, no check of `IntrinsicGas` overflows: the base
gas, the data gas and, for the init code of a creation under EIP-3860, two gas a word. -/
theorem intrinsicGas_of_small {Addr Hash : Type} {data : List UInt8} (hdata : data ≠ []) (hlen : data.length < 2 ^ 32)
    (isContractCreation isHomestead isEIP2028 isEIP3860 : Bool) :
    intrinsicGas data ([] : List (AccessTuple Addr Hash)) isContractCreation isHomestead isEIP2028 isEIP3860 =
      .ok ((if isContractCreation && isHomestead then txGasContractCreation else txGas) +
        (data.filter (· ≠ 0)).length * (if isEIP2028 then txDataNonZeroGasEIP2028 else txDataNonZeroGasFrontier) +
        (data.length - (data.filter (· ≠ 0)).length) * txDataZeroGas +
        (if isContractCreation && isEIP3860 then toWordSize data.length * initCodeWordGas else 0)) := by
  have hnz : (data.filter (· ≠ 0)).length ≤ data.length := List.length_filter_le _ _
  have hpos : 0 < data.length := List.length_pos_iff.2 hdata
  have hw : toWordSize data.length = (data.length + 31) / 32 := by
    unfold toWordSize maxUint64
    rw [if_neg (by omega)]
  unfold intrinsicGas
  simp only [gt_iff_lt, hpos, ↓reduceIte, List.length_nil, Nat.zero_mul, Nat.add_zero, List.map_nil, List.sum_nil]
  have hnz32 : (data.filter (· ≠ 0)).length < 2 ^ 32 := Nat.lt_of_le_of_lt hnz hlen
  rw [hw]
  -- every overflow check passes, and the sums stay below `2 ^ 64`
  cases isContractCreation <;> cases isHomestead <;> cases isEIP2028 <;> cases isEIP3860 <;>
    simp only [txGas, txGasContractCreation, txDataZeroGas, txDataNonZeroGasFrontier, txDataNonZeroGasEIP2028,
      initCodeWordGas, maxUint64, u64, Bool.and_true, Bool.and_false,
      Bool.false_eq_true, ↓reduceIte] <;>
    split_ifs <;> first | omega | (congr 1; omega)

end AmazeChain.Txspool
