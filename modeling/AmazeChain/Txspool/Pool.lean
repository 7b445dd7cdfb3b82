import AmazeChain.Txspool.Lookup

/-!
# The transaction pool: adding and removing transactions

`TxsPool` (`internal/txspool/txs_pool.go`) keeps, for every account, a pending list of transactions ready to
run (strict: a removal postpones every later nonce) and a queue of future ones, every pooled transaction in
the lookup `all`, and the next nonce of every account in `pendingNonces`.  This module models the state and
the calls that add or remove single transactions: `validateTx`, `promoteTx`, `enqueueTx`, `removeTx`, `add`
and the batch entry `addTxs`.

The model passes the state explicitly; a call returns the new pool beside its result, also when it fails,
since the source mutates the pool before some of its errors (`add` drops cheaper transactions to make room
before its replacement check).  What the source takes from outside is a parameter: the transaction hash
`keccak`, the fork blocks of the chain, the current time, and the priced list `txPricedList`, a pair of
price heaps over the remote transactions that `add` consults to make room; its state and operations are
left open (`PricedList`), so every result holds for every implementation of them.  The sender of a
transaction is its `From` field, as the source reads it (`validateSender` returns `true`).
-/

namespace AmazeChain.Txspool

/-- The fork blocks of `params.ChainConfig` that the pool and the state transition read; `none` for a fork
that is not scheduled.  `parlia` is whether a Parlia engine is configured. -/
structure ChainConfig where
  homesteadBlock : Option ℕ
  istanbulBlock : Option ℕ
  berlinBlock : Option ℕ
  londonBlock : Option ℕ
  shanghaiBlock : Option ℕ
  eip1559FeeCollectorTransition : Option ℕ
  parlia : Bool

/-- `isForked`: a fork block is scheduled at or before `head`. -/
def isForked (s : Option ℕ) (head : ℕ) : Bool :=
  match s with
  | none => false
  | some s => s ≤ head

namespace ChainConfig

def isHomestead (c : ChainConfig) (num : ℕ) : Bool := isForked c.homesteadBlock num
def isIstanbul (c : ChainConfig) (num : ℕ) : Bool := isForked c.istanbulBlock num
def isBerlin (c : ChainConfig) (num : ℕ) : Bool := isForked c.berlinBlock num
def isLondon (c : ChainConfig) (num : ℕ) : Bool := isForked c.londonBlock num
def isShanghai (c : ChainConfig) (num : ℕ) : Bool := isForked c.shanghaiBlock num

end ChainConfig

/-- `TxsPoolConfig`, without `Locals` and `Lifetime`, which nothing modelled reads. -/
structure TxsPoolConfig where
  noLocals : Bool
  priceLimit : ℕ
  priceBump : ℕ
  accountSlots : ℕ
  globalSlots : ℕ
  accountQueue : ℕ
  globalQueue : ℕ

/-- `DefaultTxPoolConfig`, the configuration `NewTxsPool` uses. -/
def defaultTxPoolConfig : TxsPoolConfig where
  noLocals := false
  priceLimit := 1
  priceBump := 10
  accountSlots := 16
  globalSlots := 4096 + 1024
  accountQueue := 64
  globalQueue := 1024

/-- The errors the pool returns (`ErrAlreadyKnown` … of `txs_pool.go`, and those of `internal` it passes on). -/
inductive TxPoolError where
  | errAlreadyKnown
  | errInvalidSender
  | errOversizedData
  | errNegativeValue
  | errGasLimit
  | errUnderpriced
  | errTxPoolOverflow
  | errReplaceUnderpriced
  | errFeeCapVeryHigh
  | errNonceTooLow
  | errInsufficientFunds
  | errTipAboveFeeCap
  | errTxTypeNotSupported
  | errTipVeryHigh
  | errIntrinsicGas
  | errGasUintOverflow
  deriving DecidableEq, Repr

/-- The calls the pool makes on its `txPricedList`, over a state `P` of the list.  `removed`, `underpriced`,
`discard` and `setBaseFee` read the lookup, as the source's list does through its pointer to `all`. -/
structure PricedList (P Addr Hash : Type) where
  new : P
  put : P → Transaction Addr Hash → Bool → P
  removed : P → TxLookup Addr Hash → ℕ → P
  underpriced : P → TxLookup Addr Hash → Transaction Addr Hash → Bool × P
  discard : P → TxLookup Addr Hash → ℕ → Bool → List (Transaction Addr Hash) × Bool × P
  setBaseFee : P → TxLookup Addr Hash → ℕ → P

/-- The fields of a block the pool reads. -/
structure Block (Hash : Type) where
  number : ℕ
  hash : Hash
  parentHash : Hash
  gasLimit : ℕ

/-- What the pool runs with: the transaction hash, the chain's fork blocks, `misc.CalcBaseFee` of a head,
and the priced list. -/
structure PoolEnv (P Addr Hash : Type) where
  keccak : TxData Addr Hash → Hash
  chainConfig : ChainConfig
  calcBaseFee : Block Hash → ℕ
  priced : PricedList P Addr Hash

/-- The pool's state (`TxsPool`), without its channels, locks and chain handle. -/
structure TxsPool (P Addr Hash : Type) where
  config : TxsPoolConfig
  currentState : StateReader Addr
  pendingNonces : TxNoncer Addr
  currentMaxGas : ℕ
  istanbul : Bool
  eip2718 : Bool
  eip1559 : Bool
  shanghai : Bool
  locals : Finset Addr
  pending : AList fun _ : Addr => TxsList Addr Hash
  queue : AList fun _ : Addr => TxsList Addr Hash
  beats : AList fun _ : Addr => ℕ
  all : TxLookup Addr Hash
  priced : P
  gasPrice : ℕ
  changesSinceReorg : ℕ

/-- `uint256.Int.Sign`: the sign of the value read as a two's complement number. -/
def signU256 (x : ℕ) : ℤ := if x = 0 then 0 else if x < 2 ^ 255 then 1 else -1

variable {P Addr Hash : Type} [DecidableEq Addr] [DecidableEq Hash]

namespace TxsPool

variable (env : PoolEnv P Addr Hash)

/-- `validateTx`: the consensus rules and local limits a new transaction must meet. -/
def validateTx (pool : TxsPool P Addr Hash) (tx : Transaction Addr Hash) (isLocal : Bool) :
    Except TxPoolError Unit := do
  -- accept only legacy transactions until EIP-2718/2930 activates, no dynamic fee ones before EIP-1559
  if !pool.eip2718 && tx.txType ≠ .legacyTxType then throw .errTxTypeNotSupported
  if !pool.eip1559 && tx.txType = .dynamicFeeTxType then throw .errTxTypeNotSupported
  let gasPrice := tx.gasPrice
  let addr := tx.sender
  if ptrSize > txMaxSize then throw .errOversizedData
  if signU256 tx.value < 0 then throw .errNegativeValue
  if pool.currentMaxGas < tx.gas then throw .errGasLimit
  -- `BitLen() > 256`
  if 2 ^ 256 ≤ gasPrice then throw .errFeeCapVeryHigh
  if 2 ^ 256 ≤ tx.gasTipCap then throw .errTipVeryHigh
  if tx.gasFeeCap < tx.gasTipCap then throw .errTipAboveFeeCap
  -- the source's comment "Make sure the transaction is signed properly." stands here, with no check under it
  if !isLocal && gasPrice < pool.gasPrice then throw .errUnderpriced
  if pool.currentState.getNonce addr > tx.nonce then throw .errNonceTooLow
  if pool.currentState.getBalance addr < tx.cost then throw .errInsufficientFunds
  let intrGas ← (intrinsicGas tx.data tx.accessList tx.toAddr.isNone true pool.istanbul pool.shanghai).mapError
    fun _ => .errGasUintOverflow
  if tx.gas < intrGas then throw .errIntrinsicGas

/-- `validateSender`. -/
def validateSender (_tx : Transaction Addr Hash) : Bool := true

/-! ### Updates of the lookup and the priced list -/

/-- `pool.all.Remove(hash)`. -/
def dropHash (pool : TxsPool P Addr Hash) (hash : Hash) : TxsPool P Addr Hash :=
  { pool with all := pool.all.remove hash }

/-- Remove the transactions of a list from the lookup, one `pool.all.Remove` each. -/
def dropAll (pool : TxsPool P Addr Hash) (txs : List (Transaction Addr Hash)) : TxsPool P Addr Hash :=
  txs.foldl (fun pool tx => pool.dropHash (tx.hash env.keccak)) pool

/-- `pool.priced.Removed(count)`. -/
def markRemoved (pool : TxsPool P Addr Hash) (count : ℕ) : TxsPool P Addr Hash :=
  { pool with priced := env.priced.removed pool.priced pool.all count }

/-- Discard a transaction replaced in a list: `pool.all.Remove(old.Hash())` and `pool.priced.Removed(1)`. -/
def discardReplaced (pool : TxsPool P Addr Hash) (old : Option (Transaction Addr Hash)) : TxsPool P Addr Hash :=
  match old with
  | some old => (pool.dropHash (old.hash env.keccak)).markRemoved env 1
  | none => pool

/-- `pool.all.Add(tx, local)` and `pool.priced.Put(tx, local)`. -/
def addToAll (pool : TxsPool P Addr Hash) (tx : Transaction Addr Hash) (isLocal : Bool) : TxsPool P Addr Hash :=
  let pool := { pool with all := pool.all.add env.keccak tx isLocal }
  { pool with priced := env.priced.put pool.priced tx isLocal }

section Fields

variable {pool : TxsPool P Addr Hash}

@[simp] theorem dropHash_all (hash : Hash) : (pool.dropHash hash).all = pool.all.remove hash := rfl
@[simp] theorem dropHash_pending (hash : Hash) : (pool.dropHash hash).pending = pool.pending := rfl
@[simp] theorem dropHash_queue (hash : Hash) : (pool.dropHash hash).queue = pool.queue := rfl
@[simp] theorem markRemoved_all (n : ℕ) : (pool.markRemoved env n).all = pool.all := rfl
@[simp] theorem markRemoved_pending (n : ℕ) : (pool.markRemoved env n).pending = pool.pending := rfl
@[simp] theorem markRemoved_queue (n : ℕ) : (pool.markRemoved env n).queue = pool.queue := rfl
@[simp] theorem addToAll_all (tx : Transaction Addr Hash) (isLocal : Bool) :
    (pool.addToAll env tx isLocal).all = pool.all.add env.keccak tx isLocal := rfl
@[simp] theorem addToAll_pending (tx : Transaction Addr Hash) (isLocal : Bool) :
    (pool.addToAll env tx isLocal).pending = pool.pending := rfl
@[simp] theorem addToAll_queue (tx : Transaction Addr Hash) (isLocal : Bool) :
    (pool.addToAll env tx isLocal).queue = pool.queue := rfl

@[simp] theorem discardReplaced_pending (old : Option (Transaction Addr Hash)) :
    (pool.discardReplaced env old).pending = pool.pending := by
  cases old <;> rfl

@[simp] theorem discardReplaced_queue (old : Option (Transaction Addr Hash)) :
    (pool.discardReplaced env old).queue = pool.queue := by
  cases old <;> rfl

theorem discardReplaced_all (old : Option (Transaction Addr Hash)) :
    (pool.discardReplaced env old).all = old.elim pool.all fun old => pool.all.remove (old.hash env.keccak) := by
  cases old <;> rfl

/-- `dropAll` touches the lookup only. -/
theorem dropAll_eq (txs : List (Transaction Addr Hash)) :
    pool.dropAll env txs = { pool with all := txs.foldl (fun t tx => t.remove (tx.hash env.keccak)) pool.all } := by
  induction txs generalizing pool with
  | nil => rfl
  | cons tx txs ih =>
    unfold dropAll at ih ⊢
    rw [List.foldl_cons, ih]
    rfl

@[simp] theorem dropAll_pending (txs : List (Transaction Addr Hash)) :
    (pool.dropAll env txs).pending = pool.pending := by
  rw [dropAll_eq]

@[simp] theorem dropAll_queue (txs : List (Transaction Addr Hash)) : (pool.dropAll env txs).queue = pool.queue := by
  rw [dropAll_eq]

end Fields

/-! ### Single transactions -/

/-- `promoteTx`: move a transaction into the pending list of its account; whether it went in. -/
def promoteTx (pool : TxsPool P Addr Hash) (addr : Addr) (hash : Hash) (tx : Transaction Addr Hash) (now : ℕ) :
    Bool × TxsPool P Addr Hash :=
  let list := (pool.pending.lookup addr).getD (TxsList.new true)
  let (inserted, old, list) := list.add tx pool.config.priceBump
  -- the pending list is created even when the insertion fails
  let pool := { pool with pending := pool.pending.insert addr list }
  if !inserted then
    -- an older transaction was better: discard this one
    (false, (pool.dropHash hash).markRemoved env 1)
  else
    let pool := pool.discardReplaced env old
    (true, { pool with
      pendingNonces := pool.pendingNonces.set addr ((tx.nonce + 1) % u64)
      beats := pool.beats.insert addr now })

/-- `enqueueTx`: insert a transaction into the queue of its account, and into the lookup if `addAll`;
whether it replaced one. -/
def enqueueTx (pool : TxsPool P Addr Hash) (_hash : Hash) (tx : Transaction Addr Hash) (isLocal addAll : Bool)
    (now : ℕ) : TxsPool P Addr Hash × Except TxPoolError Bool :=
  let sender := tx.sender
  let list := (pool.queue.lookup sender).getD (TxsList.new false)
  let (inserted, old, list) := list.add tx pool.config.priceBump
  -- the queue is created even when the insertion fails
  let pool := { pool with queue := pool.queue.insert sender list }
  if !inserted then (pool, .error .errReplaceUnderpriced)
  else
    let pool := pool.discardReplaced env old
    let pool := if addAll then pool.addToAll env tx isLocal else pool
    -- record the heartbeat if there is none yet
    let pool := if (pool.beats.lookup sender).isNone then { pool with beats := pool.beats.insert sender now }
      else pool
    (pool, .ok old.isSome)

/-- Move transactions back to the queue, leaving the lookup alone (`enqueueTx(hash, tx, false, false)` each). -/
def enqueueAll (pool : TxsPool P Addr Hash) (txs : List (Transaction Addr Hash)) (now : ℕ) :
    TxsPool P Addr Hash :=
  txs.foldl (fun pool tx => (pool.enqueueTx env (tx.hash env.keccak) tx false false now).1) pool

/-- The end of `removeTx` for a transaction that is not pending: take it out of the queue. -/
def removeQueued (pool : TxsPool P Addr Hash) (addr : Addr) (tx : Transaction Addr Hash) : TxsPool P Addr Hash :=
  match pool.queue.lookup addr with
  | none => pool
  | some future =>
    let future := (future.remove tx).2.2
    if future.empty then { pool with queue := pool.queue.erase addr, beats := pool.beats.erase addr }
    else { pool with queue := pool.queue.insert addr future }

/-- `removeTx`: remove the transaction of a hash from the pool, postponing the later pending ones of its
account. -/
def removeTx (pool : TxsPool P Addr Hash) (hash : Hash) (outofbound : Bool) (now : ℕ) : TxsPool P Addr Hash :=
  match pool.all.get hash with
  | none => pool
  | some tx =>
    let addr := tx.sender
    let pool := pool.dropHash hash
    let pool := if outofbound then pool.markRemoved env 1 else pool
    match pool.pending.lookup addr with
    | some pending =>
      match pending.remove tx with
      | (true, invalids, pending) =>
        -- remove the pending list once it is empty
        let pool := if pending.empty then { pool with pending := pool.pending.erase addr }
          else { pool with pending := pool.pending.insert addr pending }
        let pool := pool.enqueueAll env invalids now
        { pool with pendingNonces := pool.pendingNonces.setIfLower addr tx.nonce }
      | (false, _, _) => pool.removeQueued addr tx
    | none => pool.removeQueued addr tx

section Specs

variable {pool : TxsPool P Addr Hash} {tx : Transaction Addr Hash}

theorem enqueueTx_of_add_false {l : TxsList Addr Hash}
    (h : ((pool.queue.lookup tx.sender).getD (TxsList.new false)).add tx pool.config.priceBump = (false, none, l))
    (hash : Hash) (isLocal addAll : Bool) (now : ℕ) :
    pool.enqueueTx env hash tx isLocal addAll now =
      ({ pool with queue := pool.queue.insert tx.sender l }, .error .errReplaceUnderpriced) := by
  unfold enqueueTx
  dsimp only
  rw [h]
  rfl

theorem enqueueTx_of_add_true {old : Option (Transaction Addr Hash)} {l : TxsList Addr Hash}
    (h : ((pool.queue.lookup tx.sender).getD (TxsList.new false)).add tx pool.config.priceBump = (true, old, l))
    (hash : Hash) (isLocal addAll : Bool) (now : ℕ) :
    (pool.enqueueTx env hash tx isLocal addAll now).2 = .ok old.isSome ∧
      (pool.enqueueTx env hash tx isLocal addAll now).1.pending = pool.pending ∧
      (pool.enqueueTx env hash tx isLocal addAll now).1.queue = pool.queue.insert tx.sender l ∧
      (pool.enqueueTx env hash tx isLocal addAll now).1.all =
        if addAll then (pool.discardReplaced env old).all.add env.keccak tx isLocal
        else (pool.discardReplaced env old).all := by
  unfold enqueueTx
  dsimp only
  rw [h]
  simp only [Bool.not_true, Bool.false_eq_true, ↓reduceIte]
  -- the heartbeat touches none of these fields
  cases addAll <;>
    simp [apply_ite TxsPool.all, apply_ite TxsPool.pending, apply_ite TxsPool.queue, discardReplaced_all]

theorem promoteTx_of_add_false {addr : Addr} {l : TxsList Addr Hash}
    (h : ((pool.pending.lookup addr).getD (TxsList.new true)).add tx pool.config.priceBump = (false, none, l))
    (hash : Hash) (now : ℕ) :
    pool.promoteTx env addr hash tx now =
      (false, (({ pool with pending := pool.pending.insert addr l } : TxsPool P Addr Hash).dropHash hash).markRemoved env 1) := by
  unfold promoteTx
  dsimp only
  rw [h]
  rfl

theorem promoteTx_of_add_true {addr : Addr} {old : Option (Transaction Addr Hash)} {l : TxsList Addr Hash}
    (h : ((pool.pending.lookup addr).getD (TxsList.new true)).add tx pool.config.priceBump = (true, old, l))
    (hash : Hash) (now : ℕ) :
    (pool.promoteTx env addr hash tx now).1 = true ∧
      (pool.promoteTx env addr hash tx now).2.pending = pool.pending.insert addr l ∧
      (pool.promoteTx env addr hash tx now).2.queue = pool.queue ∧
      (pool.promoteTx env addr hash tx now).2.all = (pool.discardReplaced env old).all := by
  unfold promoteTx
  dsimp only
  rw [h]
  simp [discardReplaced_all]

@[simp] theorem removeQueued_all (addr : Addr) : (pool.removeQueued addr tx).all = pool.all := by
  unfold removeQueued
  split
  · rfl
  · dsimp only
    split <;> rfl

@[simp] theorem removeQueued_pending (addr : Addr) : (pool.removeQueued addr tx).pending = pool.pending := by
  unfold removeQueued
  split
  · rfl
  · dsimp only
    split <;> rfl

theorem enqueueAll_cons (txs : List (Transaction Addr Hash)) (now : ℕ) :
    pool.enqueueAll env (tx :: txs) now =
      (pool.enqueueTx env (tx.hash env.keccak) tx false false now).1.enqueueAll env txs now := rfl

end Specs

/-! ### Adding a transaction -/

/-- The part of `add` that runs when the pool is full: refuse an underpriced remote transaction, or drop
the cheapest remote ones to make room. -/
def makeRoom (pool : TxsPool P Addr Hash) (tx : Transaction Addr Hash) (isLocal : Bool) (now : ℕ) :
    TxsPool P Addr Hash × Except TxPoolError Unit :=
  if pool.all.slots + numSlots tx > pool.config.globalSlots + pool.config.globalQueue then
    -- `Underpriced` is asked of a remote transaction only
    let (underpriced, priced) :=
      if !isLocal then env.priced.underpriced pool.priced pool.all tx else (false, pool.priced)
    let pool := { pool with priced := priced }
    if underpriced then (pool, .error .errUnderpriced)
    else if pool.changesSinceReorg > pool.config.globalSlots / 4 then (pool, .error .errTxPoolOverflow)
    else
      let (drop, success, priced) := env.priced.discard pool.priced pool.all
        (pool.all.slots - (pool.config.globalSlots + pool.config.globalQueue) + numSlots tx) isLocal
      let pool := { pool with priced := priced }
      if !isLocal && !success then (pool, .error .errTxPoolOverflow)
      else
        let pool := { pool with changesSinceReorg := pool.changesSinceReorg + drop.length }
        (drop.foldl (fun pool tx => pool.removeTx env (tx.hash env.keccak) false now) pool, .ok ())
  else (pool, .ok ())

/-- Whatever `makeRoom` decides, it only removes transactions, by `removeTx(hash, false)` one after the
other. -/
theorem makeRoom_eq_foldl (pool : TxsPool P Addr Hash) (tx : Transaction Addr Hash) (isLocal : Bool) (now : ℕ) :
    ∃ (drop : List (Transaction Addr Hash)) (pool' : TxsPool P Addr Hash),
      (pool.makeRoom env tx isLocal now).1 =
        drop.foldl (fun pool tx => pool.removeTx env (tx.hash env.keccak) false now) pool' ∧
      pool'.all = pool.all ∧ pool'.pending = pool.pending ∧ pool'.queue = pool.queue := by
  unfold makeRoom
  dsimp only
  -- every refusal returns the pool with only its priced list or counter changed
  split_ifs <;> first
    | exact ⟨[], _, rfl, rfl, rfl, rfl⟩
    | exact ⟨_, _, rfl, rfl, rfl, rfl⟩


def replacePending (pool : TxsPool P Addr Hash) (tx : Transaction Addr Hash) (list : TxsList Addr Hash)
    (isLocal : Bool) (now : ℕ) : TxsPool P Addr Hash × Except TxPoolError Bool :=
  let sender := tx.sender
  let (inserted, old, list) := list.add tx pool.config.priceBump
  if !inserted then (pool, .error .errReplaceUnderpriced)
  else
    let pool := { pool with pending := pool.pending.insert sender list }
    let pool := (pool.discardReplaced env old).addToAll env tx isLocal
    (({ pool with beats := pool.beats.insert sender now } : TxsPool P Addr Hash), .ok old.isSome)

theorem replacePending_of_add_false {pool : TxsPool P Addr Hash} {tx : Transaction Addr Hash}
    {list l : TxsList Addr Hash} (h : list.add tx pool.config.priceBump = (false, none, l)) (isLocal : Bool)
    (now : ℕ) : pool.replacePending env tx list isLocal now = (pool, .error .errReplaceUnderpriced) := by
  unfold replacePending
  dsimp only
  rw [h]
  rfl

theorem replacePending_of_add_true {pool : TxsPool P Addr Hash} {tx : Transaction Addr Hash}
    {list l : TxsList Addr Hash} {old : Option (Transaction Addr Hash)}
    (h : list.add tx pool.config.priceBump = (true, old, l)) (isLocal : Bool) (now : ℕ) :
    (pool.replacePending env tx list isLocal now).2 = .ok old.isSome ∧
      (pool.replacePending env tx list isLocal now).1.pending = pool.pending.insert tx.sender l ∧
      (pool.replacePending env tx list isLocal now).1.queue = pool.queue ∧
      (pool.replacePending env tx list isLocal now).1.all =
        (pool.discardReplaced env old).all.add env.keccak tx isLocal := by
  unfold replacePending
  dsimp only
  rw [h]
  simp [discardReplaced_all]

/-- The part of `add` that queues the transaction, and marks its sender local the first time it comes
from a local source. -/
def addFuture (pool : TxsPool P Addr Hash) (tx : Transaction Addr Hash) (local' isLocal : Bool) (now : ℕ) :
    TxsPool P Addr Hash × Except TxPoolError Bool :=
  match pool.enqueueTx env (tx.hash env.keccak) tx isLocal true now with
  | (pool, .error e) => (pool, .error e)
  | (pool, .ok replaced) =>
    if local' && tx.sender ∉ pool.locals then
      let pool := { pool with locals := insert tx.sender pool.locals }
      -- migrate the remotes of the account now marked local
      let (migrated, all) := pool.all.remoteToLocals pool.locals
      (({ pool with all := all } : TxsPool P Addr Hash).markRemoved env migrated, .ok replaced)
    else (pool, .ok replaced)

/-- `add`: validate a transaction and put it into the pool, replacing a pending one of its nonce or queued;
whether it replaced a transaction. -/
def add (pool : TxsPool P Addr Hash) (tx : Transaction Addr Hash) (local' : Bool) (now : ℕ) :
    TxsPool P Addr Hash × Except TxPoolError Bool :=
  if (pool.all.get (tx.hash env.keccak)).isSome then (pool, .error .errAlreadyKnown)
  else
    -- a transaction from a local source, or from an account marked local before, is local
    let isLocal := local' || containsTx pool.locals tx
    match pool.validateTx tx isLocal with
    | .error e => (pool, .error e)
    | .ok () =>
      match pool.makeRoom env tx isLocal now with
      | (pool, .error e) => (pool, .error e)
      | (pool, .ok ()) =>
        match pool.pending.lookup tx.sender with
        | some list =>
          if list.overlaps tx then pool.replacePending env tx list isLocal now
          else pool.addFuture env tx local' isLocal now
        | none => pool.addFuture env tx local' isLocal now

/-- `accountSet.add`, on the list `flatten` gives. -/
def addAccount (as : List Addr) (addr : Addr) : List Addr := if addr ∈ as then as else as ++ [addr]

/-- `addTxsLocked`: add a batch; the errors, and the accounts with a new transaction that replaced none. -/
def addTxsLocked (pool : TxsPool P Addr Hash) (txs : List (Transaction Addr Hash)) (local' : Bool) (now : ℕ) :
    List (Option TxPoolError) × List Addr × TxsPool P Addr Hash :=
  txs.foldl (fun (errs, dirty, pool) tx =>
    match pool.add env tx local' now with
    | (pool, .ok replaced) => (errs ++ [none], if !replaced then addAccount dirty tx.sender else dirty, pool)
    | (pool, .error e) => (errs ++ [some e], dirty, pool)) ([], [], pool)

/-- Fill the free slots of the first errors with the second ones, in order. -/
def mergeErrs : List (Option TxPoolError) → List (Option TxPoolError) → List (Option TxPoolError)
  | [], _ => []
  | some e :: errs, newErrs => some e :: mergeErrs errs newErrs
  | none :: errs, e :: newErrs => e :: mergeErrs errs newErrs
  | none :: errs, [] => none :: mergeErrs errs []

/-- `addTxs`: turn away known transactions and those whose sender does not verify, add the others; the
errors, the accounts to promote (`requestPromoteExecutables`) and the pool. -/
def addTxs (pool : TxsPool P Addr Hash) (txs : List (Transaction Addr Hash)) (local' : Bool) (now : ℕ) :
    List (Option TxPoolError) × List Addr × TxsPool P Addr Hash :=
  let errs := txs.map fun tx =>
    if (pool.all.get (tx.hash env.keccak)).isSome then some .errAlreadyKnown
    else if !validateSender tx then some .errInvalidSender
    else none
  let news := (txs.zip errs).filterMap fun (tx, err) => if err.isNone then some tx else none
  if news = [] then (errs, [], pool)
  else
    let (newErrs, dirty, pool) := pool.addTxsLocked env news local' now
    (mergeErrs errs newErrs, dirty, pool)

/-- `AddRemotes`. -/
def addRemotes (pool : TxsPool P Addr Hash) (txs : List (Transaction Addr Hash)) (now : ℕ) :
    List (Option TxPoolError) × List Addr × TxsPool P Addr Hash :=
  pool.addTxs env txs false now

/-- `AddLocals`. -/
def addLocals (pool : TxsPool P Addr Hash) (txs : List (Transaction Addr Hash)) (now : ℕ) :
    List (Option TxPoolError) × List Addr × TxsPool P Addr Hash :=
  pool.addTxs env txs (!pool.config.noLocals) now

end TxsPool

end AmazeChain.Txspool
