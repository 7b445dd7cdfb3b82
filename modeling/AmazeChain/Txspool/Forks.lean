import AmazeChain.Txspool.Calls
import AmazeChain.Internal.StateTransition
import AmazeChain.Lib.ListFold

/-!
# The pool's fork flags and the intrinsic gas of execution

`validateTx` computes the intrinsic gas of a transaction with the pool's own fork flags, which `reset` sets
for the block after the new head: `istanbul`, `eip2718` and `eip1559` (`internal/txspool/txs_pool.go`).  The
flag `shanghai` is declared beside them, but nothing assigns it: `NewTxsPool` leaves it false, and no call of
the pool writes it (`Reachable.shanghai_eq_false`, from one frame lemma per call).  Execution takes the flags
of the block's rules (`TransitionDb`, `internal/state_transition.go`), where Shanghai's EIP-3860 charges two
gas for every word of a contract's init code.  From the first block under Shanghai on, a creation that pays
exactly what the pool asks passes the pool's check and fails execution's with `ErrIntrinsicGas`
(`validateTx_admits_initcode_shortfall`).
-/

set_option linter.unusedSectionVars false

namespace AmazeChain.Txspool

variable {P Addr Hash : Type} [DecidableEq Addr] [DecidableEq Hash]

namespace TxsPool

variable (env : PoolEnv P Addr Hash) {pool : TxsPool P Addr Hash}

/-! ### No call writes the Shanghai flag -/

@[simp] theorem dropHash_shanghai (hash : Hash) : (pool.dropHash hash).shanghai = pool.shanghai := rfl
@[simp] theorem markRemoved_shanghai (n : ℕ) : (pool.markRemoved env n).shanghai = pool.shanghai := rfl
@[simp] theorem addToAll_shanghai (tx : Transaction Addr Hash) (isLocal : Bool) :
    (pool.addToAll env tx isLocal).shanghai = pool.shanghai := rfl

@[simp] theorem discardReplaced_shanghai (old : Option (Transaction Addr Hash)) :
    (pool.discardReplaced env old).shanghai = pool.shanghai := by
  cases old <;> rfl

@[simp] theorem dropAll_shanghai (txs : List (Transaction Addr Hash)) :
    (pool.dropAll env txs).shanghai = pool.shanghai := by
  unfold dropAll
  refine ListFold.foldl_proj shanghai (fun y tx _ => ?_) pool
  rfl

@[simp] theorem promoteTx_shanghai (addr : Addr) (hash : Hash) (tx : Transaction Addr Hash) (now : ℕ) :
    (pool.promoteTx env addr hash tx now).2.shanghai = pool.shanghai := by
  unfold promoteTx
  dsimp only
  split <;> simp

@[simp] theorem enqueueTx_shanghai (hash : Hash) (tx : Transaction Addr Hash) (isLocal addAll : Bool) (now : ℕ) :
    (pool.enqueueTx env hash tx isLocal addAll now).1.shanghai = pool.shanghai := by
  unfold enqueueTx
  dsimp only
  split
  · rfl
  · split <;> split <;> simp_all

@[simp] theorem enqueueAll_shanghai (txs : List (Transaction Addr Hash)) (now : ℕ) :
    (pool.enqueueAll env txs now).shanghai = pool.shanghai := by
  unfold enqueueAll
  refine ListFold.foldl_proj shanghai (fun y tx _ => ?_) pool
  exact enqueueTx_shanghai env _ tx false false now

@[simp] theorem removeQueued_shanghai (addr : Addr) (tx : Transaction Addr Hash) :
    (pool.removeQueued addr tx).shanghai = pool.shanghai := by
  unfold removeQueued
  split
  · rfl
  · dsimp only
    split <;> rfl

@[simp] theorem removeTx_shanghai (hash : Hash) (outofbound : Bool) (now : ℕ) :
    (pool.removeTx env hash outofbound now).shanghai = pool.shanghai := by
  unfold removeTx
  split
  · rfl
  · -- the removal writes the lists, the lookup and the nonces, whichever list holds the transaction
    have hdrop : (if outofbound then (pool.dropHash hash).markRemoved env 1 else pool.dropHash hash).shanghai =
        pool.shanghai := by
      split <;> rfl
    dsimp only
    split
    · split
      · dsimp only
        split <;> simp [hdrop]
      · simp [hdrop]
    · simp [hdrop]

theorem foldl_removeTx_shanghai (outofbound : Bool) (now : ℕ) (txs : List (Transaction Addr Hash)) :
    (txs.foldl (fun pool tx => pool.removeTx env (tx.hash env.keccak) outofbound now) pool).shanghai =
      pool.shanghai := by
  refine ListFold.foldl_proj shanghai (fun y tx _ => ?_) pool
  exact removeTx_shanghai env _ outofbound now

@[simp] theorem makeRoom_shanghai (tx : Transaction Addr Hash) (isLocal : Bool) (now : ℕ) :
    (pool.makeRoom env tx isLocal now).1.shanghai = pool.shanghai := by
  unfold makeRoom
  dsimp only
  split_ifs <;> simp [foldl_removeTx_shanghai]

@[simp] theorem replacePending_shanghai (tx : Transaction Addr Hash) (list : TxsList Addr Hash) (isLocal : Bool)
    (now : ℕ) : (pool.replacePending env tx list isLocal now).1.shanghai = pool.shanghai := by
  unfold replacePending
  dsimp only
  split <;> simp

@[simp] theorem addFuture_shanghai (tx : Transaction Addr Hash) (local' isLocal : Bool) (now : ℕ) :
    (pool.addFuture env tx local' isLocal now).1.shanghai = pool.shanghai := by
  unfold addFuture
  rcases h : pool.enqueueTx env (tx.hash env.keccak) tx isLocal true now with ⟨pool', r⟩
  have h' : (pool.enqueueTx env (tx.hash env.keccak) tx isLocal true now).1.shanghai = pool.shanghai :=
    enqueueTx_shanghai env _ tx isLocal true now
  rw [h] at h'
  dsimp only at h'
  cases r with
  | error e => exact h'
  | ok replaced =>
    -- marking the sender local and migrating its transactions keep the flag
    dsimp only
    split <;> simp [h']

@[simp] theorem add_shanghai (tx : Transaction Addr Hash) (local' : Bool) (now : ℕ) :
    (pool.add env tx local' now).1.shanghai = pool.shanghai := by
  unfold add
  split
  · rfl
  · dsimp only
    split
    · rfl
    · rcases h : pool.makeRoom env tx (local' || containsTx pool.locals tx) now with ⟨pool', r⟩
      have h' : (pool.makeRoom env tx (local' || containsTx pool.locals tx) now).1.shanghai = pool.shanghai :=
        makeRoom_shanghai env tx _ now
      rw [h] at h'
      dsimp only at h'
      cases r with
      | error e => exact h'
      | ok u =>
        dsimp only
        split
        · split <;> simp [h']
        · simp [h']

theorem addTxsLocked_shanghai (txs : List (Transaction Addr Hash)) (local' : Bool) (now : ℕ) :
    (pool.addTxsLocked env txs local' now).2.2.shanghai = pool.shanghai := by
  unfold addTxsLocked
  refine ListFold.foldl_proj (fun t : List (Option TxPoolError) × List Addr × TxsPool P Addr Hash => t.2.2.shanghai)
    (fun t tx _ => ?_) ([], [], pool)
  have h' : (t.2.2.add env tx local' now).1.shanghai = t.2.2.shanghai := add_shanghai env tx local' now
  rcases h : t.2.2.add env tx local' now with ⟨pool', r⟩
  rw [h] at h'
  dsimp only at h'
  dsimp only
  rw [h]
  cases r <;> exact h'

@[simp] theorem addTxs_shanghai (txs : List (Transaction Addr Hash)) (local' : Bool) (now : ℕ) :
    (pool.addTxs env txs local' now).2.2.shanghai = pool.shanghai := by
  unfold addTxs
  dsimp only
  split
  · rfl
  · exact addTxsLocked_shanghai env _ local' now

@[simp] theorem promoteAccount_shanghai (addr : Addr) (list : TxsList Addr Hash) (now : ℕ) :
    (pool.promoteAccount env addr list now).2.shanghai = pool.shanghai := by
  unfold promoteAccount
  dsimp -zeta only
  extract_lets p₁ p₂ p₃ p₄ p₅ p₆
  -- each stage writes the lists, the lookup, the nonces or the heartbeats, and keeps the flag
  have h₁ : p₁.shanghai = pool.shanghai := dropAll_shanghai env _
  have h₂ : p₂.shanghai = pool.shanghai := (dropAll_shanghai env _).trans h₁
  have h₃ : p₃.shanghai = pool.shanghai := h₂
  have hfold : ∀ (readies : List (Transaction Addr Hash)) (acc : List (Transaction Addr Hash) × TxsPool P Addr Hash),
      (readies.foldl (fun acc tx =>
        (if (acc.2.promoteTx env addr (tx.hash env.keccak) tx now).1 then acc.1 ++ [tx] else acc.1,
          (acc.2.promoteTx env addr (tx.hash env.keccak) tx now).2)) acc).2.shanghai = acc.2.shanghai :=
    fun readies acc => ListFold.foldl_proj (fun acc : List (Transaction Addr Hash) × TxsPool P Addr Hash =>
      acc.2.shanghai) (fun acc tx _ => promoteTx_shanghai env addr _ tx now) acc
  have h₄ : p₄.shanghai = pool.shanghai := (dropAll_shanghai env _).trans ((hfold _ _).trans h₃)
  have h₅ : p₅.shanghai = pool.shanghai := h₄
  -- deleting an empty queue keeps it too
  show p₆.shanghai = pool.shanghai
  simp only [p₆, apply_ite TxsPool.shanghai, h₅, ite_self]

@[simp] theorem promoteExecutables_shanghai (accounts : List Addr) (now : ℕ) :
    (pool.promoteExecutables env accounts now).2.shanghai = pool.shanghai := by
  unfold promoteExecutables
  refine ListFold.foldl_proj (fun acc : List (Transaction Addr Hash) × TxsPool P Addr Hash => acc.2.shanghai)
    (fun acc addr _ => ?_) ([], pool)
  dsimp only
  split
  · rfl
  · exact promoteAccount_shanghai env addr _ now

@[simp] theorem demoteAccount_shanghai (addr : Addr) (list : TxsList Addr Hash) (now : ℕ) :
    (pool.demoteAccount env addr list now).shanghai = pool.shanghai := by
  unfold demoteAccount
  dsimp -zeta only
  extract_lets nonce p₁ p₂ p₃ p₄
  have h₁ : p₁.shanghai = pool.shanghai := dropAll_shanghai env _
  have h₃ : p₃.shanghai = pool.shanghai := (enqueueAll_shanghai env _ now).trans ((dropAll_shanghai env _).trans h₁)
  have h₄ : p₄.shanghai = pool.shanghai := (enqueueAll_shanghai env _ now).trans h₃
  simp only [apply_ite TxsPool.shanghai, h₄, ite_self]

@[simp] theorem demoteUnexecutables_shanghai (now : ℕ) :
    (pool.demoteUnexecutables env now).shanghai = pool.shanghai := by
  unfold demoteUnexecutables
  refine ListFold.foldl_proj shanghai (fun p addr _ => ?_) pool
  split
  · rfl
  · exact demoteAccount_shanghai env addr _ now

@[simp] theorem capRound_shanghai (offenders : List Addr) (pending : ℕ) :
    (capRound env offenders pending pool).2.shanghai = pool.shanghai := by
  unfold capRound
  refine ListFold.foldl_proj (fun acc : ℕ × TxsPool P Addr Hash => acc.2.shanghai) (fun acc addr _ => ?_)
    (pending, pool)
  dsimp only
  split
  · rfl
  · -- the capped transactions leave the lookup one by one
    dsimp only
    rw [markRemoved_shanghai]
    refine ListFold.foldl_proj shanghai (fun p tx _ => ?_) _
    rfl

theorem capWhile_shanghai (cond : ℕ → TxsPool P Addr Hash → Bool) (offenders : List Addr) :
    ∀ (fuel pending : ℕ) (pool : TxsPool P Addr Hash),
      (capWhile env cond offenders fuel pending pool).2.shanghai = pool.shanghai
  | 0, _, _ => rfl
  | fuel + 1, pending, pool => by
    unfold capWhile
    split
    · exact (capWhile_shanghai cond offenders fuel _ _).trans (capRound_shanghai env offenders pending)
    · rfl

theorem equalizeOffenders_shanghai :
    ∀ (spammers offenders : List Addr) (pending : ℕ) (pool : TxsPool P Addr Hash),
      (equalizeOffenders env spammers offenders pending pool).2.2.shanghai = pool.shanghai
  | [], _, _, _ => rfl
  | offender :: spammers, offenders, pending, pool => by
    unfold equalizeOffenders
    split
    · split
      · exact equalizeOffenders_shanghai spammers _ pending pool
      · exact (equalizeOffenders_shanghai spammers _ _ _).trans (capWhile_shanghai env _ offenders _ pending pool)
    · rfl

@[simp] theorem truncatePending_shanghai : (pool.truncatePending env).shanghai = pool.shanghai := by
  unfold truncatePending
  dsimp only
  split
  · rfl
  · -- equalising keeps the flag, and so does the last round of caps
    have h := equalizeOffenders_shanghai env
    generalize hr : equalizeOffenders env _ [] _ pool = r
    obtain ⟨pending', offenders', pool'⟩ := r
    have h' : pool'.shanghai = pool.shanghai := by rw [← h _ [] _ pool, hr]
    dsimp only
    split
    · split
      · exact (capWhile_shanghai env _ _ _ _ _).trans h'
      · exact h'
    · exact h'

@[simp] theorem removeAllTxs_shanghai (txs : List (Transaction Addr Hash)) (now : ℕ) :
    (pool.removeAllTxs env txs now).shanghai = pool.shanghai :=
  foldl_removeTx_shanghai env true now txs

theorem truncateQueueLoop_shanghai (now : ℕ) :
    ∀ (drop : ℕ) (addresses : List Addr) (pool : TxsPool P Addr Hash),
      (truncateQueueLoop env now drop addresses pool).shanghai = pool.shanghai
  | _, [], _ => rfl
  | drop, addr :: addresses, pool => by
    unfold truncateQueueLoop
    split
    · split
      · exact truncateQueueLoop_shanghai now drop addresses pool
      · split
        · exact (truncateQueueLoop_shanghai now _ addresses _).trans (removeAllTxs_shanghai env _ now)
        · exact removeAllTxs_shanghai env _ now
    · rfl

@[simp] theorem truncateQueue_shanghai (now : ℕ) : (pool.truncateQueue env now).shanghai = pool.shanghai := by
  unfold truncateQueue
  dsimp only
  split
  · rfl
  · exact truncateQueueLoop_shanghai env now _ _ pool

/-- `reset` sets the flags of Istanbul, EIP-2718 and EIP-1559, not the one of Shanghai. -/
@[simp] theorem reset_shanghai (req : ResetRequest Addr Hash) (now : ℕ) :
    (pool.reset env req now).shanghai = pool.shanghai := by
  unfold reset
  split
  · exact addTxsLocked_shanghai env _ false now
  · rfl

/-- A reset that goes through sets the Istanbul flag of the block after the new head. -/
theorem reset_istanbul {req : ResetRequest Addr Hash} {reinject : List (Transaction Addr Hash)}
    {state : StateReader Addr} (hre : req.reinject env.keccak = some reinject) (hst : req.newState = some state)
    (now : ℕ) : (pool.reset env req now).istanbul = env.chainConfig.isIstanbul (req.newBlock.number + 1) := by
  simp [reset, hre, hst]

@[simp] theorem runReorg_shanghai (reset : Option (ResetRequest Addr Hash)) (dirtyAccounts : Option (List Addr))
    (now : ℕ) : (pool.runReorg env reset dirtyAccounts now).2.shanghai = pool.shanghai := by
  unfold runReorg
  cases reset with
  | none => simp
  | some req =>
    dsimp only
    split <;> simp

theorem step_shanghai (call : PoolCall Addr Hash) : (pool.step env call).shanghai = pool.shanghai := by
  cases call <;> simp [step, addTxs_shanghai]

end TxsPool

/-- The pool never takes Shanghai's rules: `NewTxsPool` clears the flag and no call sets it. -/
theorem Reachable.shanghai_eq_false {env : PoolEnv P Addr Hash} {pool : TxsPool P Addr Hash}
    (h : Reachable env pool) : pool.shanghai = false := by
  induction h with
  | newTxsPool currentBlock state now => exact TxsPool.reset_shanghai env _ now
  | step call _ ih => rw [TxsPool.step_shanghai env call, ih]



/-! ### The intrinsic gas of a creation after Shanghai -/

/-- After every reset of a pool reached from `NewTxsPool`, to a head whose next block is under Homestead and
Shanghai: a contract creation with init code (up to `2 ^ 32` bytes, no access list) whose gas is what the
pool's intrinsic gas check asks fails the intrinsic gas check of `TransitionDb` in that block. -/
theorem validateTx_admits_initcode_shortfall {env : PoolEnv P Addr Hash} {pool : TxsPool P Addr Hash}
    (hreach : Reachable env pool) {req : ResetRequest Addr Hash} {reinject : List (Transaction Addr Hash)}
    {state : StateReader Addr} (hre : req.reinject env.keccak = some reinject) (hst : req.newState = some state)
    (now : ℕ) (hhome : env.chainConfig.isHomestead (req.newBlock.number + 1) = true)
    (hshanghai : env.chainConfig.isShanghai (req.newBlock.number + 1) = true) {tx : Transaction Addr Hash}
    (hcreate : tx.toAddr = none) (hdata : tx.data ≠ []) (hlen : tx.data.length < 2 ^ 32) (hal : tx.accessList = [])
    (hgas : intrinsicGas tx.data tx.accessList true true (pool.reset env req now).istanbul
      (pool.reset env req now).shanghai = .ok tx.gas)
    (hasFeeCollector : Bool) (baseFee : Option ℕ) :
    Internal.intrinsicGasCheck (tx.asMessage baseFee) (env.chainConfig.rules hasFeeCollector (req.newBlock.number + 1))
      tx.gas = .error .errIntrinsicGas := by
  -- the pool asks for the data gas with Istanbul's prices and without the init code words
  have hsh : (pool.reset env req now).shanghai = false := (Reachable.step (.reset req now) hreach).shanghai_eq_false
  rw [hal, hsh, TxsPool.reset_istanbul env hre hst, intrinsicGas_of_small hdata hlen] at hgas
  have hpool := (Except.ok.inj hgas).symm
  -- execution asks two gas more for every word, and a nonempty init code has a word
  have hword : 0 < toWordSize tx.data.length * initCodeWordGas := by
    have := List.length_pos_iff.2 hdata
    refine Nat.mul_pos ?_ (by decide)
    unfold toWordSize maxUint64
    split <;> omega
  simp only [Internal.intrinsicGasCheck, Transaction.asMessage, hcreate, hal, ChainConfig.rules, hhome, hshanghai,
    Option.isNone_none, intrinsicGas_of_small hdata hlen]
  simp only [Bool.and_true, Bool.and_false, Bool.false_eq_true, ↓reduceIte] at hpool ⊢
  rw [if_pos (by omega)]
  rfl

/-- The environment of the examples with Homestead and Shanghai from genesis on. -/
def shanghaiEnv : PoolEnv Unit ℕ ℕ := { exampleEnv with chainConfig := ⟨some 0, none, none, none, some 0, none, false⟩ }

/-- A reset of the example pool to block 1, under the example state. -/
def firstBlockReset : ResetRequest ℕ ℕ := ⟨none, ⟨1, 1, 0, 30000000⟩, none, some exampleState⟩

/-- A contract creation by account 1 with one byte of init code and the 53068 gas the pool asks for it. -/
def initCodeTx : Transaction ℕ ℕ := ⟨.legacyTx 0 1 53068 none 0 [1] 27 1 1, 1⟩

theorem validateTx_admits_initcode_shortfall_firstBlock :
    ((newTxsPool shanghaiEnv exampleGenesis exampleState 0).reset shanghaiEnv firstBlockReset 0).validateTx
        initCodeTx false = .ok () ∧
      Internal.intrinsicGasCheck (initCodeTx.asMessage none) (shanghaiEnv.chainConfig.rules false 2)
        initCodeTx.gas = .error .errIntrinsicGas :=
  ⟨by decide +kernel, validateTx_admits_initcode_shortfall (.newTxsPool exampleGenesis exampleState 0)
    (show firstBlockReset.reinject shanghaiEnv.keccak = some [] from rfl) rfl 0 rfl rfl rfl (by decide) (by decide)
    rfl (by decide +kernel) false none⟩

end AmazeChain.Txspool
