import AmazeChain.Utils.Convert

/-!
# Transactions on the wire

The Go records of the three transaction types (`legacy_tx.go`, `access_list.go`, `dynamic_fee_tx.go`) with
their nil pointers, `NewTx` and the `copy` methods it calls, and the protobuf conversions of
`transaction.go`: `ToProtoMessage` (and `Marshal`, which repeats its body), `txDataFromProtoMessage`,
`FromProtoMessage` and `Unmarshal`.  The message is taken as `proto.Marshal` wrote it.

Two things the copies do decide what survives: every `uint256` field is initialised with
`new(uint256.Int)` before it is `Set`, except `V`, `R` and `S` of an access list transaction, where `Set`
on the nil pointer is a panic (`AccessListTx.copy_eq_some`); and `Sign` is copied into a nil slice, so it
is empty in every copy.  The message has no slot for the access list: a transaction built by `NewTx` comes
back from the wire with every field it had but an empty access list (`newTx_roundTrip`).
-/

namespace AmazeChain.Common

open Utils

structure AccessTuple where
  address : Bytes 20
  storageKeys : List (Bytes 32)
  deriving DecidableEq

/-- `LegacyTx`: a nil pointer is `none`, a nil slice is empty. -/
structure LegacyTx where
  nonce : UInt64
  gasPrice : Option Uint256
  gas : UInt64
  toAddr : Option (Bytes 20)
  fromAddr : Option (Bytes 20)
  value : Option Uint256
  data : List UInt8
  v : Option Uint256
  r : Option Uint256
  s : Option Uint256
  sign : List UInt8
  deriving DecidableEq

structure AccessListTx where
  chainID : Option Uint256
  nonce : UInt64
  gasPrice : Option Uint256
  gas : UInt64
  toAddr : Option (Bytes 20)
  fromAddr : Option (Bytes 20)
  value : Option Uint256
  data : List UInt8
  accessList : List AccessTuple
  sign : List UInt8
  v : Option Uint256
  r : Option Uint256
  s : Option Uint256
  deriving DecidableEq

structure DynamicFeeTx where
  chainID : Option Uint256
  nonce : UInt64
  gasTipCap : Option Uint256
  gasFeeCap : Option Uint256
  gas : UInt64
  toAddr : Option (Bytes 20)
  fromAddr : Option (Bytes 20)
  value : Option Uint256
  data : List UInt8
  accessList : List AccessTuple
  sign : List UInt8
  v : Option Uint256
  r : Option Uint256
  s : Option Uint256
  deriving DecidableEq

inductive TxData where
  | legacyTx (tx : LegacyTx)
  | accessListTx (tx : AccessListTx)
  | dynamicFeeTx (tx : DynamicFeeTx)
  deriving DecidableEq

/-- `Transaction`: the time it was first seen and the caches are left out. -/
structure Transaction where
  inner : TxData
  deriving DecidableEq

/-- `types_pb.Transaction`; its `hash` field is never written. -/
structure PbTransaction where
  txType : UInt64
  nonce : UInt64
  gasPrice : Option H256
  gas : UInt64
  feePerGas : Option H256
  priorityFeePerGas : Option H256
  value : Option H256
  data : List UInt8
  sign : List UInt8
  toAddr : Option H160
  fromAddr : Option H160
  chainID : UInt64
  r : Option H256
  s : Option H256
  v : Option H256
  deriving DecidableEq

/-- `var pbTx types_pb.Transaction`. -/
def PbTransaction.empty : PbTransaction := ⟨0, 0, none, 0, none, none, none, [], [], none, none, 0, none, none, none⟩

/-- `cpy.X = new(uint256.Int)`, then `cpy.X.Set(tx.X)` when `tx.X` is not nil. -/
def copyUint256 (x : Option Uint256) : Option Uint256 := some (x.getD (Uint256.ofUInt64 0))

def LegacyTx.copy (tx : LegacyTx) : LegacyTx :=
  { tx with
    value := copyUint256 tx.value, gasPrice := copyUint256 tx.gasPrice,
    v := copyUint256 tx.v, r := copyUint256 tx.r, s := copyUint256 tx.s,
    -- `copy(cpy.Sign, tx.Sign)` into a nil slice copies nothing
    sign := [] }

def AccessListTx.copy (tx : AccessListTx) : Option AccessListTx :=
  -- `V`, `R` and `S` are left nil in the copy, and `Set` on a nil pointer is a panic
  if tx.v.isSome ∨ tx.r.isSome ∨ tx.s.isSome then none
  else some { tx with
    value := copyUint256 tx.value, chainID := copyUint256 tx.chainID, gasPrice := copyUint256 tx.gasPrice,
    sign := [] }

def DynamicFeeTx.copy (tx : DynamicFeeTx) : DynamicFeeTx :=
  { tx with
    value := copyUint256 tx.value, chainID := copyUint256 tx.chainID, gasTipCap := copyUint256 tx.gasTipCap,
    gasFeeCap := copyUint256 tx.gasFeeCap, v := copyUint256 tx.v, r := copyUint256 tx.r, s := copyUint256 tx.s,
    sign := [] }

namespace TxData

def copy : TxData → Option TxData
  | legacyTx tx => some (legacyTx tx.copy)
  | accessListTx tx => tx.copy.map accessListTx
  | dynamicFeeTx tx => some (dynamicFeeTx tx.copy)

def fromAddr : TxData → Option (Bytes 20)
  | legacyTx tx => tx.fromAddr
  | accessListTx tx => tx.fromAddr
  | dynamicFeeTx tx => tx.fromAddr

/-- The `ChainID` field of the two typed transactions; a legacy one derives its chain id from `V`. -/
def chainIDField : TxData → Option Uint256
  | legacyTx _ => none
  | accessListTx tx => tx.chainID
  | dynamicFeeTx tx => tx.chainID

/-- The transaction with an empty access list, the one it comes back from the wire with. -/
def clearAccessList : TxData → TxData
  | legacyTx tx => legacyTx tx
  | accessListTx tx => accessListTx { tx with accessList := [] }
  | dynamicFeeTx tx => dynamicFeeTx { tx with accessList := [] }

end TxData

def newTx (inner : TxData) : Option Transaction := inner.copy.map Transaction.mk

namespace Transaction

/-- `To`, `V`, `R` and `S`, written by `ToProtoMessage` after the fields of each type when they are not nil. -/
def withToAndSignature (pb : PbTransaction) (toAddr : Option (Bytes 20)) (v r s : Option Uint256) :
    PbTransaction :=
  { pb with
    toAddr := toAddr.map convertAddressToH160,
    v := v.bind fun v => convertUint256IntToH256 (some v),
    r := r.bind fun r => convertUint256IntToH256 (some r),
    s := s.bind fun s => convertUint256IntToH256 (some s) }

/-- `ToProtoMessage`: a nil price, value, chain id or sender is a panic. -/
def toProtoMessage (tx : Transaction) : Option PbTransaction :=
  match tx.inner with
  | .accessListTx t => do
    let chainID ← t.chainID
    let gasPrice ← convertUint256IntToH256 t.gasPrice
    let value ← convertUint256IntToH256 t.value
    let fromAddr ← t.fromAddr
    pure (withToAndSignature { PbTransaction.empty with
      txType := 1, chainID := chainID.w0, nonce := t.nonce, gas := t.gas, gasPrice := some gasPrice,
      value := some value, data := t.data, fromAddr := some (convertAddressToH160 fromAddr), sign := t.sign }
      t.toAddr t.v t.r t.s)
  | .legacyTx t => do
    let gasPrice ← convertUint256IntToH256 t.gasPrice
    let value ← convertUint256IntToH256 t.value
    let fromAddr ← t.fromAddr
    pure (withToAndSignature { PbTransaction.empty with
      txType := 0, nonce := t.nonce, gas := t.gas, gasPrice := some gasPrice, value := some value,
      data := t.data, fromAddr := some (convertAddressToH160 fromAddr), sign := t.sign }
      t.toAddr t.v t.r t.s)
  | .dynamicFeeTx t => do
    let chainID ← t.chainID
    -- `tx.GasPrice()` of a dynamic fee transaction is its fee cap
    let gasPrice ← convertUint256IntToH256 t.gasFeeCap
    let value ← convertUint256IntToH256 t.value
    let fromAddr ← t.fromAddr
    let feePerGas ← convertUint256IntToH256 t.gasFeeCap
    let priorityFeePerGas ← convertUint256IntToH256 t.gasTipCap
    pure (withToAndSignature { PbTransaction.empty with
      txType := 2, chainID := chainID.w0, nonce := t.nonce, gas := t.gas, gasPrice := some gasPrice,
      value := some value, data := t.data, fromAddr := some (convertAddressToH160 fromAddr), sign := t.sign,
      feePerGas := some feePerGas, priorityFeePerGas := some priorityFeePerGas }
      t.toAddr t.v t.r t.s)

/-- `Marshal` builds the same message as `ToProtoMessage` before `proto.Marshal`. -/
def marshal (tx : Transaction) : Option PbTransaction := toProtoMessage tx

end Transaction

/-- `if nil != pbTx.X { X = Convert(pbTx.X) }`. -/
def ifPresent {α β : Type} (convert : Option α → Option β) : Option α → Option (Option β)
  | none => some none
  | some a => (convert (some a)).map some

/-- `txDataFromProtoMessage`: the outer `none` is a panic, the inner one the nil data of an unknown type. -/
def txDataFromProtoMessage (pb : PbTransaction) : Option (Option TxData) :=
  if pb.txType = 0 then do
    let toAddr ← ifPresent convertH160toAddress pb.toAddr
    let fromAddr ← convertH160toAddress pb.fromAddr
    let gasPrice ← convertH256ToUint256Int pb.gasPrice
    let value ← convertH256ToUint256Int pb.value
    let v ← ifPresent convertH256ToUint256Int pb.v
    let r ← ifPresent convertH256ToUint256Int pb.r
    let s ← ifPresent convertH256ToUint256Int pb.s
    pure (some (.legacyTx ⟨pb.nonce, some gasPrice, pb.gas, toAddr, some fromAddr, some value, pb.data, v, r, s,
      pb.sign⟩))
  else if pb.txType = 1 then do
    let gasPrice ← convertH256ToUint256Int pb.gasPrice
    let value ← convertH256ToUint256Int pb.value
    let v ← ifPresent convertH256ToUint256Int pb.v
    let r ← ifPresent convertH256ToUint256Int pb.r
    let s ← ifPresent convertH256ToUint256Int pb.s
    let toAddr ← ifPresent convertH160toAddress pb.toAddr
    let fromAddr ← convertH160toAddress pb.fromAddr
    pure (some (.accessListTx ⟨some (Uint256.ofUInt64 pb.chainID), pb.nonce, some gasPrice, pb.gas, toAddr,
      some fromAddr, some value, pb.data, [], pb.sign, v, r, s⟩))
  else if pb.txType = 2 then do
    let gasFeeCap ← convertH256ToUint256Int pb.feePerGas
    let gasTipCap ← convertH256ToUint256Int pb.priorityFeePerGas
    let value ← convertH256ToUint256Int pb.value
    let v ← ifPresent convertH256ToUint256Int pb.v
    let r ← ifPresent convertH256ToUint256Int pb.r
    let s ← ifPresent convertH256ToUint256Int pb.s
    let toAddr ← ifPresent convertH160toAddress pb.toAddr
    let fromAddr ← convertH160toAddress pb.fromAddr
    pure (some (.dynamicFeeTx ⟨some (Uint256.ofUInt64 pb.chainID), pb.nonce, some gasTipCap, some gasFeeCap,
      pb.gas, toAddr, some fromAddr, some value, pb.data, [], pb.sign, v, r, s⟩))
  else some none

/-- `FromProtoMessage`: `NewTx` of the decoded data; of nil data it calls `copy` on a nil interface. -/
def fromProtoMessage (pb : PbTransaction) : Option Transaction := do
  let inner ← txDataFromProtoMessage pb
  let inner ← inner
  newTx inner

/-- `Unmarshal` keeps the decoded data as it is, with no copy; it may be nil. -/
def unmarshal (pb : PbTransaction) : Option (Option Transaction) :=
  (txDataFromProtoMessage pb).map (Option.map Transaction.mk)

/-! ### What `NewTx` builds -/

@[simp] theorem copyUint256_some (x : Uint256) : copyUint256 (some x) = some x := rfl

@[simp] theorem copyUint256_copyUint256 (x : Option Uint256) : copyUint256 (copyUint256 x) = copyUint256 x := rfl

theorem getD_isUint64 {x : Option Uint256} (h : ∀ c ∈ x, c.IsUint64) : (x.getD (Uint256.ofUInt64 0)).IsUint64 := by
  cases x with
  | none => exact ⟨rfl, rfl, rfl⟩
  | some c => exact h c rfl

theorem AccessListTx.copy_eq_none {tx : AccessListTx} (h : tx.v.isSome ∨ tx.r.isSome ∨ tx.s.isSome) :
    tx.copy = none := by
  simp [AccessListTx.copy, h]

/-- What a copy of an access list transaction is: no signature values, every other number set. -/
theorem AccessListTx.copy_eq_some {tx tx' : AccessListTx} (h : tx.copy = some tx') :
    tx.v = none ∧ tx.r = none ∧ tx.s = none ∧ tx' = { tx with
      value := copyUint256 tx.value, chainID := copyUint256 tx.chainID, gasPrice := copyUint256 tx.gasPrice,
      sign := [] } := by
  by_cases hv : tx.v.isSome ∨ tx.r.isSome ∨ tx.s.isSome
  · rw [AccessListTx.copy_eq_none hv] at h
    cases h
  · simp only [AccessListTx.copy, if_neg hv, Option.some.injEq] at h
    simp only [not_or, Option.not_isSome_iff_eq_none] at hv
    exact ⟨hv.1, hv.2.1, hv.2.2, h.symm⟩

/-! ### The wire round trip -/

@[simp] theorem ifPresent_none {α β : Type} (convert : Option α → Option β) : ifPresent convert none = some none :=
  rfl

@[simp] theorem ifPresent_some {α β : Type} (convert : Option α → Option β) (a : α) :
    ifPresent convert (some a) = (convert (some a)).map some := rfl

theorem ifPresent_map {α β : Type} {convert : Option α → Option β} {enc : β → α}
    (h : ∀ b, convert (some (enc b)) = some b) (x : Option β) : ifPresent convert (x.map enc) = some x := by
  cases x with
  | none => rfl
  | some b => simp [h]

theorem LegacyTx.roundTrip (t : LegacyTx) (hfrom : t.fromAddr.isSome) :
    ∃ pb, Transaction.toProtoMessage ⟨.legacyTx t.copy⟩ = some pb ∧
      txDataFromProtoMessage pb = some (some (.legacyTx t.copy)) := by
  obtain ⟨a, ha⟩ := Option.isSome_iff_exists.1 hfrom
  simp [Transaction.toProtoMessage, LegacyTx.copy, copyUint256, ha, txDataFromProtoMessage,
    Transaction.withToAndSignature, ifPresent_map convertH160toAddress_convertAddressToH160]

theorem AccessListTx.roundTrip {t t' : AccessListTx} (hcopy : t.copy = some t') (hfrom : t.fromAddr.isSome)
    (hchain : ∀ c ∈ t.chainID, c.IsUint64) :
    ∃ pb, Transaction.toProtoMessage ⟨.accessListTx t'⟩ = some pb ∧
      txDataFromProtoMessage pb = some (some (.accessListTx { t' with accessList := [] })) := by
  obtain ⟨hv, hr, hs, rfl⟩ := AccessListTx.copy_eq_some hcopy
  obtain ⟨a, ha⟩ := Option.isSome_iff_exists.1 hfrom
  -- the chain id goes over the wire as its low word
  simp [Transaction.toProtoMessage, copyUint256, ha, hv, hr, hs, txDataFromProtoMessage,
    Transaction.withToAndSignature, ifPresent_map convertH160toAddress_convertAddressToH160,
    Uint256.ofUInt64_w0 (getD_isUint64 hchain)]

theorem DynamicFeeTx.roundTrip (t : DynamicFeeTx) (hfrom : t.fromAddr.isSome) (hchain : ∀ c ∈ t.chainID, c.IsUint64) :
    ∃ pb, Transaction.toProtoMessage ⟨.dynamicFeeTx t.copy⟩ = some pb ∧
      txDataFromProtoMessage pb = some (some (.dynamicFeeTx { t.copy with accessList := [] })) := by
  obtain ⟨a, ha⟩ := Option.isSome_iff_exists.1 hfrom
  simp [Transaction.toProtoMessage, DynamicFeeTx.copy, copyUint256, ha, txDataFromProtoMessage,
    Transaction.withToAndSignature, ifPresent_map convertH160toAddress_convertAddressToH160,
    Uint256.ofUInt64_w0 (getD_isUint64 hchain)]

theorem AccessListTx.copy_clear {t t' : AccessListTx} (hcopy : t.copy = some t') (l : List AccessTuple) :
    { t' with accessList := l }.copy = some { t' with accessList := l } := by
  obtain ⟨hv, hr, hs, rfl⟩ := AccessListTx.copy_eq_some hcopy
  simp [AccessListTx.copy, copyUint256, hv, hr, hs]

/-- The wire round trip of a transaction `NewTx` built: every field comes back but the access list, which
comes back empty.  `NewTx` of an access list transaction with signature values is a panic. -/
theorem newTx_roundTrip (inner : TxData) (hfrom : inner.fromAddr.isSome)
    (hchain : ∀ c ∈ inner.chainIDField, c.IsUint64) :
    ((∃ t, inner = .accessListTx t ∧ (t.v.isSome ∨ t.r.isSome ∨ t.s.isSome)) → newTx inner = none) ∧
    ∀ tx, newTx inner = some tx → ∃ pb, tx.toProtoMessage = some pb ∧ tx.marshal = some pb ∧
      fromProtoMessage pb = some ⟨tx.inner.clearAccessList⟩ ∧
      unmarshal pb = some (some ⟨tx.inner.clearAccessList⟩) := by
  refine ⟨fun ⟨t, hinner, hsig⟩ => by simp [hinner, newTx, TxData.copy, AccessListTx.copy_eq_none hsig], ?_⟩
  intro tx htx
  -- the message decodes to the data with an empty access list, which a second copy leaves as it is
  have hdecode : ∃ pb, tx.toProtoMessage = some pb ∧
      txDataFromProtoMessage pb = some (some tx.inner.clearAccessList) ∧
      tx.inner.clearAccessList.copy = some tx.inner.clearAccessList := by
    cases inner with
    | legacyTx t =>
      obtain rfl : tx = ⟨.legacyTx t.copy⟩ := by simpa [newTx, TxData.copy] using htx.symm
      obtain ⟨pb, hpb, hdec⟩ := LegacyTx.roundTrip t hfrom
      exact ⟨pb, hpb, hdec, rfl⟩
    | accessListTx t =>
      obtain ⟨t', hcopy, rfl⟩ : ∃ t', t.copy = some t' ∧ tx = ⟨.accessListTx t'⟩ := by
        simpa [newTx, TxData.copy, eq_comm] using htx
      obtain ⟨pb, hpb, hdec⟩ := AccessListTx.roundTrip hcopy hfrom hchain
      exact ⟨pb, hpb, hdec, by simp [TxData.clearAccessList, TxData.copy, AccessListTx.copy_clear hcopy]⟩
    | dynamicFeeTx t =>
      obtain rfl : tx = ⟨.dynamicFeeTx t.copy⟩ := by simpa [newTx, TxData.copy] using htx.symm
      obtain ⟨pb, hpb, hdec⟩ := DynamicFeeTx.roundTrip t hfrom hchain
      exact ⟨pb, hpb, hdec, rfl⟩
  obtain ⟨pb, hpb, hdec, hcopy⟩ := hdecode
  exact ⟨pb, hpb, hpb, by simp [fromProtoMessage, hdec, newTx, hcopy], by simp [unmarshal, hdec]⟩

/-- A dynamic fee transaction with one access list entry. -/
def accessedTx : DynamicFeeTx :=
  ⟨some (Uint256.ofUInt64 1), 0, some (Uint256.ofUInt64 1), some (Uint256.ofUInt64 2), 21000, none,
    some (zeroBytes 20), some (Uint256.ofUInt64 0), [], [⟨zeroBytes 20, []⟩], [], none, none, none⟩

/-- An access list transaction with a `V` value. -/
def signedAccessListTx : AccessListTx :=
  ⟨some (Uint256.ofUInt64 1), 0, some (Uint256.ofUInt64 1), 21000, none, some (zeroBytes 20),
    some (Uint256.ofUInt64 0), [], [], [], some (Uint256.ofUInt64 27), none, none⟩

theorem newTx_roundTrip_accessedTx :
    newTx (.accessListTx signedAccessListTx) = none ∧
    ∃ tx pb, newTx (.dynamicFeeTx accessedTx) = some tx ∧ tx.marshal = some pb ∧
      fromProtoMessage pb = some ⟨tx.inner.clearAccessList⟩ ∧ tx.inner.clearAccessList ≠ tx.inner := by
  have hpanic := newTx_roundTrip (.accessListTx signedAccessListTx) rfl (by simp [TxData.chainIDField,
    signedAccessListTx, Uint256.IsUint64, Uint256.ofUInt64])
  have hwire := newTx_roundTrip (.dynamicFeeTx accessedTx) rfl (by simp [TxData.chainIDField, accessedTx,
    Uint256.IsUint64, Uint256.ofUInt64])
  obtain ⟨pb, -, hmarshal, hfrom, -⟩ := hwire.2 ⟨.dynamicFeeTx accessedTx.copy⟩ rfl
  refine ⟨hpanic.1 ⟨signedAccessListTx, rfl, by decide⟩, _, pb, rfl, hmarshal, hfrom, ?_⟩
  simp [TxData.clearAccessList, DynamicFeeTx.copy, accessedTx]


/-! ### Transactions decoded from the wire -/

/-- A transaction that `FromProtoMessage` returned: one that came from a peer or the database. -/
def Transaction.Decoded (tx : Transaction) : Prop := ∃ pb, fromProtoMessage pb = some tx

theorem isSome_of_convertH160toAddress {h160 : Option H160} {addr : Bytes 20}
    (h : convertH160toAddress h160 = some addr) : h160.isSome := by
  cases h160 with
  | none => simp [convertH160toAddress] at h
  | some _ => rfl

/-- What `txDataFromProtoMessage` builds has a sender, read from a message that has one, a chain id that fits
a word, and no access list. -/
theorem txDataFromProtoMessage_wellFormed {pb : PbTransaction} {inner : TxData}
    (h : txDataFromProtoMessage pb = some (some inner)) :
    pb.fromAddr.isSome ∧ inner.fromAddr.isSome ∧ (∀ c ∈ inner.chainIDField, c.IsUint64) ∧
      inner.clearAccessList = inner := by
  unfold txDataFromProtoMessage at h
  split_ifs at h
  · simp only [Option.bind_eq_bind, Option.pure_def, Option.bind_eq_some_iff, Option.some.injEq] at h
    obtain ⟨_, -, _, hfrom, _, -, _, -, _, -, _, -, _, -, rfl⟩ := h
    exact ⟨isSome_of_convertH160toAddress hfrom, rfl, by simp [TxData.chainIDField], rfl⟩
  · simp only [Option.bind_eq_bind, Option.pure_def, Option.bind_eq_some_iff, Option.some.injEq] at h
    obtain ⟨_, -, _, -, _, -, _, -, _, -, _, -, _, hfrom, rfl⟩ := h
    exact ⟨isSome_of_convertH160toAddress hfrom, rfl,
      by simp [TxData.chainIDField, Uint256.IsUint64, Uint256.ofUInt64], rfl⟩
  · simp only [Option.bind_eq_bind, Option.pure_def, Option.bind_eq_some_iff, Option.some.injEq] at h
    obtain ⟨_, -, _, -, _, -, _, -, _, -, _, -, _, -, _, hfrom, rfl⟩ := h
    exact ⟨isSome_of_convertH160toAddress hfrom, rfl,
      by simp [TxData.chainIDField, Uint256.IsUint64, Uint256.ofUInt64], rfl⟩
  · simp at h

/-- `copy` keeps the access list, so it keeps an empty one empty. -/
theorem TxData.copy_clearAccessList {inner inner' : TxData} (h : inner.copy = some inner')
    (hc : inner.clearAccessList = inner) : inner'.clearAccessList = inner' := by
  cases inner with
  | legacyTx t =>
    obtain rfl : inner' = .legacyTx t.copy := by simpa [TxData.copy, eq_comm] using h
    rfl
  | accessListTx t =>
    obtain ⟨t', ht', rfl⟩ : ∃ t', t.copy = some t' ∧ .accessListTx t' = inner' := by
      simpa [TxData.copy] using h
    obtain ⟨-, -, -, rfl⟩ := AccessListTx.copy_eq_some ht'
    simp only [TxData.clearAccessList, TxData.accessListTx.injEq] at hc ⊢
    simpa using (congrArg AccessListTx.accessList hc).symm
  | dynamicFeeTx t =>
    obtain rfl : inner' = .dynamicFeeTx t.copy := by simpa [TxData.copy, eq_comm] using h
    simp only [TxData.clearAccessList, TxData.dynamicFeeTx.injEq] at hc ⊢
    simpa [DynamicFeeTx.copy] using (congrArg DynamicFeeTx.accessList hc).symm

/-- A decoded transaction goes back on the wire as a message with a sender, and comes back from it as
itself. -/
theorem Transaction.Decoded.roundTrip {tx : Transaction} (h : tx.Decoded) :
    ∃ pb, tx.marshal = some pb ∧ fromProtoMessage pb = some tx ∧ pb.fromAddr.isSome := by
  obtain ⟨pb₀, h⟩ := h
  simp only [fromProtoMessage, Option.bind_eq_bind, Option.bind_eq_some_iff] at h
  obtain ⟨_, hdecode, inner, rfl, hnew⟩ := h
  obtain ⟨-, hfrom, hchain, hclear⟩ := txDataFromProtoMessage_wellFormed hdecode
  obtain ⟨pb, -, hmarshal, hback, -⟩ := (newTx_roundTrip inner hfrom hchain).2 tx hnew
  -- `NewTx` copied the data, and the copy has the empty access list the message gave it
  have hcopy : inner.copy = some tx.inner := by
    simp only [newTx, Option.map_eq_some_iff] at hnew
    obtain ⟨inner', hinner', rfl⟩ := hnew
    exact hinner'
  have hkeep : tx.inner.clearAccessList = tx.inner := TxData.copy_clearAccessList hcopy hclear
  refine ⟨pb, hmarshal, by rw [hback, hkeep], ?_⟩
  simp only [fromProtoMessage, Option.bind_eq_bind, Option.bind_eq_some_iff] at hback
  obtain ⟨_, hdecode', _, rfl, -⟩ := hback
  exact (txDataFromProtoMessage_wellFormed hdecode').1

/-- Two decoded transactions with the same message are the same transaction. -/
theorem Transaction.Decoded.marshal_inj {tx tx' : Transaction} (h : tx.Decoded) (h' : tx'.Decoded)
    (hm : tx.marshal = tx'.marshal) : tx = tx' := by
  obtain ⟨pb, hpb, hback, -⟩ := h.roundTrip
  obtain ⟨pb', hpb', hback', -⟩ := h'.roundTrip
  rw [hpb, hpb', Option.some.injEq] at hm
  subst hm
  simpa [hback] using hback'

end AmazeChain.Common
