import AmazeChain.Txspool.Pool

/-!
# The transaction pool: promotion, demotion, truncation and reset

The calls `runReorg` makes on behalf of the scheduling loop: `promoteExecutables` moves the transactions that
became runnable from the queues to the pending lists, `demoteUnexecutables` drops the pending ones a new
head made invalid and postpones those behind them, `truncatePending` and `truncateQueue` cut the pool down
to its global limits, and `reset` moves the pool to a new head, re-adding the transactions of abandoned
blocks.

The loops over the accounts of a Go map visit them in the order of the model's maps; the accounts of the
spam queue of `truncatePending` are taken by decreasing pending count and those of `truncateQueue` by
increasing heartbeat, ties in the order of the map, where the source leaves ties to its heap and its
unstable sort.  The reorganisation walk of `reset` reads blocks of the chain by hash; the request carries
what it finds, the transactions of the abandoned blocks and those of the new ones, or nothing when a block is
missing.  The equalising loops of `truncatePending` run on fuel: every round lowers the pending count while
the loop needs it above the global limit, so the count itself is enough.
-/

namespace AmazeChain.Txspool

variable {P Addr Hash : Type} [DecidableEq Addr] [DecidableEq Hash]

/-- A request to move the pool to a new head, with what the pool reads for it from the chain: the walk from
the old head to the new one (the transactions of the abandoned and of the new blocks; `none` when a block on
the way is missing) and the state of the new head (`none` when `ResetState` fails). -/
structure ResetRequest (Addr Hash : Type) where
  oldBlock : Option (Block Hash)
  newBlock : Block Hash
  walk : Option (List (Transaction Addr Hash) × List (Transaction Addr Hash))
  newState : Option (StateReader Addr)

/-- `txDifference`: the transactions of `a` whose hash is not one of `b`. -/
def txDifference (keccak : TxData Addr Hash → Hash) (a b : List (Transaction Addr Hash)) :
    List (Transaction Addr Hash) :=
  let remove := b.map (·.hash keccak)
  a.filter fun tx => tx.hash keccak ∉ remove

/-- The transactions `reset` re-adds, or `none` when it returns early on an unrooted chain: a walk happens
only from an old head the new one does not extend, at most 64 blocks away. -/
def ResetRequest.reinject (keccak : TxData Addr Hash → Hash) (req : ResetRequest Addr Hash) :
    Option (List (Transaction Addr Hash)) :=
  match req.oldBlock with
  | none => some []
  | some old =>
    if old.hash = req.newBlock.parentHash then some []
    else if max old.number req.newBlock.number - min old.number req.newBlock.number > 64 then some []
    else req.walk.map fun (discarded, included) => txDifference keccak discarded included

namespace TxsPool

variable (env : PoolEnv P Addr Hash)

/-! ### Promotion -/

/-- The body of `promoteExecutables` for an account with a queue: drop the transactions below the state
nonce and those the balance or the block gas limit cannot pay, promote the run ready at the pending nonce,
and cap the queue of a remote account. -/
def promoteAccount (pool : TxsPool P Addr Hash) (addr : Addr) (list : TxsList Addr Hash) (now : ℕ) :
    List (Transaction Addr Hash) × TxsPool P Addr Hash :=
  let (forwards, list) := list.forward (pool.currentState.getNonce addr)
  let pool := ({ pool with queue := pool.queue.insert addr list } : TxsPool P Addr Hash).dropAll env forwards
  let (drops, _, list) := list.filter (pool.currentState.getBalance addr) pool.currentMaxGas
  let pool := ({ pool with queue := pool.queue.insert addr list } : TxsPool P Addr Hash).dropAll env drops
  let (readies, list) := list.ready (pool.pendingNonces.get addr)
  let pool : TxsPool P Addr Hash := { pool with queue := pool.queue.insert addr list }
  let (promoted, pool) := readies.foldl (fun (promoted, pool) tx =>
    let (ok, pool) := pool.promoteTx env addr (tx.hash env.keccak) tx now
    (if ok then promoted ++ [tx] else promoted, pool)) ([], pool)
  let (caps, list) := if addr ∉ pool.locals then list.cap pool.config.accountQueue else ([], list)
  let pool := ({ pool with queue := pool.queue.insert addr list } : TxsPool P Addr Hash).dropAll env caps
  let pool := pool.markRemoved env caps.length
  -- delete the entire queue entry once it is empty
  let pool := if list.empty then { pool with queue := pool.queue.erase addr, beats := pool.beats.erase addr }
    else pool
  (promoted, pool)

/-- `promoteExecutables`: promote what became runnable in the queues of the given accounts. -/
def promoteExecutables (pool : TxsPool P Addr Hash) (accounts : List Addr) (now : ℕ) :
    List (Transaction Addr Hash) × TxsPool P Addr Hash :=
  accounts.foldl (fun (promoted, pool) addr =>
    match pool.queue.lookup addr with
    | none => (promoted, pool)
    | some list =>
      let (more, pool) := pool.promoteAccount env addr list now
      (promoted ++ more, pool)) ([], pool)

/-! ### Demotion -/

/-- The body of `demoteUnexecutables` for an account: drop the pending transactions below the state nonce
and those the balance or gas limit cannot pay, queue those behind them, and queue the whole list when it
no longer starts at the state nonce. -/
def demoteAccount (pool : TxsPool P Addr Hash) (addr : Addr) (list : TxsList Addr Hash) (now : ℕ) :
    TxsPool P Addr Hash :=
  let nonce := pool.currentState.getNonce addr
  let (olds, list) := list.forward nonce
  let pool := ({ pool with pending := pool.pending.insert addr list } : TxsPool P Addr Hash).dropAll env olds
  let (drops, invalids, list) := list.filter (pool.currentState.getBalance addr) pool.currentMaxGas
  let pool := ({ pool with pending := pool.pending.insert addr list } : TxsPool P Addr Hash).dropAll env drops
  let pool := pool.enqueueAll env invalids now
  -- a gap in front: postpone every transaction (the source logs that this should never happen)
  let (gapped, list) := if list.len > 0 ∧ (list.txs.get nonce).isNone then list.cap 0 else ([], list)
  let pool := ({ pool with pending := pool.pending.insert addr list } : TxsPool P Addr Hash).enqueueAll env
    gapped now
  if list.empty then { pool with pending := pool.pending.erase addr } else pool

/-- `demoteUnexecutables`. -/
def demoteUnexecutables (pool : TxsPool P Addr Hash) (now : ℕ) : TxsPool P Addr Hash :=
  pool.pending.keys.foldl (fun pool addr =>
    match pool.pending.lookup addr with
    | none => pool
    | some list => pool.demoteAccount env addr list now) pool

/-! ### Truncation -/

/-- The number of pending transactions of an account. -/
def pendingLen (pool : TxsPool P Addr Hash) (addr : Addr) : ℕ :=
  ((pool.pending.lookup addr).map TxsList.len).getD 0

/-- One round of `truncatePending`: every offender gives up its highest nonce, and the pending count drops
by one per offender. -/
def capRound (offenders : List Addr) (pending : ℕ) (pool : TxsPool P Addr Hash) : ℕ × TxsPool P Addr Hash :=
  offenders.foldl (fun (pending, pool) addr =>
    match pool.pending.lookup addr with
    | none => (pending, pool)
    | some list =>
      let (caps, list) := list.cap (list.len - 1)
      let pool : TxsPool P Addr Hash := { pool with pending := pool.pending.insert addr list }
      -- drop the transaction from the lookup and lower the account's nonce to it
      let pool := caps.foldl (fun pool tx => { pool.dropHash (tx.hash env.keccak) with
        pendingNonces := pool.pendingNonces.setIfLower addr tx.nonce }) pool
      (pending - 1, pool.markRemoved env caps.length)) (pending, pool)

/-- Repeat rounds while a condition holds, for at most `fuel` rounds. -/
def capWhile (cond : ℕ → TxsPool P Addr Hash → Bool) (offenders : List Addr) :
    ℕ → ℕ → TxsPool P Addr Hash → ℕ × TxsPool P Addr Hash
  | 0, pending, pool => (pending, pool)
  | fuel + 1, pending, pool =>
    if cond pending pool then
      let (pending, pool) := capRound env offenders pending pool
      capWhile cond offenders fuel pending pool
    else (pending, pool)

/-- The first loop of `truncatePending`: take the spammers one by one, and after each bring the earlier
offenders down to its pending count. -/
def equalizeOffenders (spammers offenders : List Addr) (pending : ℕ) (pool : TxsPool P Addr Hash) :
    ℕ × List Addr × TxsPool P Addr Hash :=
  match spammers with
  | [] => (pending, offenders, pool)
  | offender :: spammers =>
    if pending > pool.config.globalSlots then
      match offenders.getLast? with
      | none => equalizeOffenders spammers [offender] pending pool
      | some prev =>
        let threshold := pool.pendingLen offender
        let (pending, pool) := capWhile env (fun pending pool =>
          decide (pending > pool.config.globalSlots) && decide (pool.pendingLen prev > threshold))
          offenders pending pending pool
        equalizeOffenders spammers (offenders ++ [offender]) pending pool
    else (pending, offenders, pool)

/-- `truncatePending`: while the pool holds more pending transactions than its global slots, take them
from the remote accounts above their own slots, the largest first, evenly. -/
def truncatePending (pool : TxsPool P Addr Hash) : TxsPool P Addr Hash :=
  let pending := (pool.pending.entries.map fun e => e.2.len).sum
  if pending ≤ pool.config.globalSlots then pool
  else
    let spammers := (pool.pending.keys.filter fun a =>
      a ∉ pool.locals && decide (pool.pendingLen a > pool.config.accountSlots)).mergeSort
        fun a b => decide (pool.pendingLen b ≤ pool.pendingLen a)
    let (pending, offenders, pool) := equalizeOffenders env spammers [] pending pool
    -- if still above the limit, reduce every offender to the account slots
    match offenders.getLast? with
    | some last =>
      if pending > pool.config.globalSlots then
        (capWhile env (fun pending pool =>
          decide (pending > pool.config.globalSlots) && decide (pool.pendingLen last > pool.config.accountSlots))
          offenders pending pending pool).2
      else pool
    | none => pool

/-- Remove the transactions of a list from the pool, one `removeTx(hash, true)` each. -/
def removeAllTxs (pool : TxsPool P Addr Hash) (txs : List (Transaction Addr Hash)) (now : ℕ) :
    TxsPool P Addr Hash :=
  txs.foldl (fun pool tx => pool.removeTx env (tx.hash env.keccak) true now) pool

/-- The loop of `truncateQueue` over the accounts from the latest heartbeat on: drop whole queues while they
fit in the overflow, then the highest nonces of the next one. -/
def truncateQueueLoop (now : ℕ) : ℕ → List Addr → TxsPool P Addr Hash → TxsPool P Addr Hash
  | _, [], pool => pool
  | drop, addr :: addresses, pool =>
    if drop > 0 then
      match pool.queue.lookup addr with
      | none => truncateQueueLoop now drop addresses pool
      | some list =>
        if list.len ≤ drop then truncateQueueLoop now (drop - list.len) addresses (pool.removeAllTxs env list.flatten now)
        else pool.removeAllTxs env (list.flatten.reverse.take drop) now
    else pool

/-- `truncateQueue`: drop queued transactions of remote accounts, the latest heartbeat first, until the
queue is within its global limit. -/
def truncateQueue (pool : TxsPool P Addr Hash) (now : ℕ) : TxsPool P Addr Hash :=
  let queued := (pool.queue.entries.map fun e => e.2.len).sum
  if queued ≤ pool.config.globalQueue then pool
  else
    let beat := fun a => (pool.beats.lookup a).getD 0
    let addresses := (pool.queue.keys.filter fun a => a ∉ pool.locals).mergeSort
      fun a b => decide (beat a ≤ beat b)
    truncateQueueLoop env now (queued - pool.config.globalQueue) addresses.reverse pool

/-! ### Reset and the reorganisation run -/

/-- `reset`: move the pool to the state of the new head, with a fresh nonce tracker and gas limit, re-add
the transactions of the abandoned blocks, and set the fork flags of the next block. -/
def reset (pool : TxsPool P Addr Hash) (req : ResetRequest Addr Hash) (now : ℕ) : TxsPool P Addr Hash :=
  match req.reinject env.keccak, req.newState with
  | some reinject, some state =>
    let pool := { pool with
      currentState := state
      pendingNonces := TxNoncer.new state.getNonce
      currentMaxGas := req.newBlock.gasLimit }
    let pool := (pool.addTxsLocked env reinject false now).2.2
    let next := req.newBlock.number + 1
    { pool with
      istanbul := env.chainConfig.isIstanbul next
      eip2718 := env.chainConfig.isBerlin next
      eip1559 := env.chainConfig.isLondon next }
  -- an unrooted chain, or a state that cannot be read: the pool stays as it is
  | _, _ => pool

/-- The nonces `runReorg` sets after a reset: one past the highest pending nonce of every account. -/
def highestPendingNonces (pool : TxsPool P Addr Hash) : AList fun _ : Addr => ℕ :=
  pool.pending.entries.foldl (fun nonces e =>
    match e.2.lastElement with
    | some tx => nonces.insert e.1 ((tx.nonce + 1) % u64)
    | none => nonces) ∅

/-- `runReorg`: reset to a new head if asked, promote the dirty accounts (every queued one after a
reset), demote after a reset, and truncate; the promoted transactions and the pool. -/
def runReorg (pool : TxsPool P Addr Hash) (reset : Option (ResetRequest Addr Hash))
    (dirtyAccounts : Option (List Addr)) (now : ℕ) : List (Transaction Addr Hash) × TxsPool P Addr Hash :=
  let (pool, promoteAddrs) := match reset with
    | some req =>
      let pool := pool.reset env req now
      (pool, pool.queue.keys)
    | none => (pool, dirtyAccounts.getD [])
  let (promoted, pool) := pool.promoteExecutables env promoteAddrs now
  let pool := match reset with
    | some req =>
      let pool := pool.demoteUnexecutables env now
      let pool := if env.chainConfig.isLondon (req.newBlock.number + 1) then
          { pool with priced := env.priced.setBaseFee pool.priced pool.all (env.calcBaseFee req.newBlock) }
        else pool
      -- update all accounts to the latest known pending nonce
      { pool with pendingNonces := pool.pendingNonces.setAll pool.highestPendingNonces }
    | none => pool
  let pool := (pool.truncatePending env).truncateQueue env now
  (promoted, { pool with changesSinceReorg := 0 })

end TxsPool

/-- `NewTxsPool`: an empty pool with the default configuration, reset to the current head.  Before the
reset the source has no state at all; the model starts from the head's state, which the reset installs. -/
def newTxsPool (env : PoolEnv P Addr Hash) (currentBlock : Block Hash) (state : StateReader Addr) (now : ℕ) :
    TxsPool P Addr Hash :=
  let pool : TxsPool P Addr Hash := {
    config := defaultTxPoolConfig
    currentState := state
    pendingNonces := TxNoncer.new state.getNonce
    currentMaxGas := 0
    istanbul := false
    eip2718 := false
    eip1559 := false
    shanghai := false
    locals := ∅
    pending := ∅
    queue := ∅
    beats := ∅
    all := TxLookup.new
    priced := env.priced.new
    gasPrice := defaultTxPoolConfig.priceLimit
    changesSinceReorg := 0 }
  pool.reset env ⟨none, currentBlock, none, some state⟩ now

/-! ### Runs of calls -/

/-- A call the pool takes: from the network and the node (`add` for one transaction, `addTxs` behind
`AddRemotes` and `AddLocals`), from its scheduling loop (`runReorg`) or one of the steps `runReorg` is made
of. -/
inductive PoolCall (Addr Hash : Type) where
  | add (tx : Transaction Addr Hash) (local' : Bool) (now : ℕ)
  | addTxs (txs : List (Transaction Addr Hash)) (local' : Bool) (now : ℕ)
  | removeTx (hash : Hash) (outofbound : Bool) (now : ℕ)
  | promoteExecutables (accounts : List Addr) (now : ℕ)
  | demoteUnexecutables (now : ℕ)
  | truncatePending
  | truncateQueue (now : ℕ)
  | reset (req : ResetRequest Addr Hash) (now : ℕ)
  | runReorg (reset : Option (ResetRequest Addr Hash)) (dirtyAccounts : Option (List Addr)) (now : ℕ)

/-- The pool after a call. -/
def TxsPool.step (env : PoolEnv P Addr Hash) (pool : TxsPool P Addr Hash) :
    PoolCall Addr Hash → TxsPool P Addr Hash
  | .add tx local' now => (pool.add env tx local' now).1
  | .addTxs txs local' now => (pool.addTxs env txs local' now).2.2
  | .removeTx hash outofbound now => pool.removeTx env hash outofbound now
  | .promoteExecutables accounts now => (pool.promoteExecutables env accounts now).2
  | .demoteUnexecutables now => pool.demoteUnexecutables env now
  | .truncatePending => pool.truncatePending env
  | .truncateQueue now => pool.truncateQueue env now
  | .reset req now => pool.reset env req now
  | .runReorg reset dirtyAccounts now => (pool.runReorg env reset dirtyAccounts now).2

/-- The pools reached from `NewTxsPool` by a run of calls, with any transactions, clock readings and states
of new heads. -/
inductive Reachable (env : PoolEnv P Addr Hash) : TxsPool P Addr Hash → Prop where
  | newTxsPool (currentBlock : Block Hash) (state : StateReader Addr) (now : ℕ) :
      Reachable env (newTxsPool env currentBlock state now)
  | step {pool : TxsPool P Addr Hash} (call : PoolCall Addr Hash) :
      Reachable env pool → Reachable env (pool.step env call)

end AmazeChain.Txspool
