import AmazeChain.Txspool.Pool

/-!
# The state transition

`TransitionDb` (`internal/state_transition.go`) applies a message to the state of a block: `preCheck`
checks the nonce, the sender and the fee caps and buys the gas (`buyGas`), the intrinsic gas is taken off,
the EVM runs the call or the creation, the unused gas is refunded (`refundGas`), and the block producer and
the fee collector are paid.

The state is reached through the methods of `evmtypes.IntraBlockState` that the transition calls
(`StateOps`), over any state type, and the interpreter through `Create` and `Call` (`EVM`); the results
here hold for every implementation of them.  A read of the state returns its value and leaves the state
as it is: the loads a read makes are not seen by the transition.  Values are `uint256` and gas amounts
`uint64`, as naturals with the wrapping the source's arithmetic has.  A Go panic (a nil base fee under
London, a gas pool pushed above `uint64`) is `none`.  The tracer and the `Debug` hooks, the Bor transfer
logs and the precompiles of the access list are left out.
-/

namespace AmazeChain.Internal

open Txspool

/-- The flags of `params.Rules` the state transition reads. -/
structure Rules where
  isHomestead : Bool
  isIstanbul : Bool
  isBerlin : Bool
  isLondon : Bool
  isShanghai : Bool
  isEip1559FeeCollector : Bool
  isParlia : Bool
  deriving DecidableEq, Repr

end AmazeChain.Internal

namespace AmazeChain.Txspool.ChainConfig

/-- `ChainConfig.Rules` at a block number; `hasFeeCollector` is whether `Eip1559FeeCollector` is set. -/
def rules (c : ChainConfig) (hasFeeCollector : Bool) (num : ℕ) : Internal.Rules where
  isHomestead := c.isHomestead num
  isIstanbul := c.isIstanbul num
  isBerlin := c.isBerlin num
  isLondon := c.isLondon num
  isShanghai := c.isShanghai num
  isEip1559FeeCollector := hasFeeCollector && isForked c.eip1559FeeCollectorTransition num
  isParlia := c.parlia

end AmazeChain.Txspool.ChainConfig

namespace AmazeChain.Internal

open Txspool

/-- The errors `TransitionDb` returns. -/
inductive TransitionError where
  | errNonceTooHigh
  | errNonceTooLow
  | errNonceMax
  | errSenderNoEOA
  | errTipAboveFeeCap
  | errFeeCapTooLow
  | errInsufficientFunds
  | errGasLimitReached
  | errGasUintOverflow
  | errIntrinsicGas
  deriving DecidableEq, Repr

/-- The methods of the intra-block state the transition calls, over a state `σ`. -/
structure StateOps (σ Addr Hash : Type) where
  getBalance : σ → Addr → ℕ
  subBalance : σ → Addr → ℕ → σ
  addBalance : σ → Addr → ℕ → σ
  getNonce : σ → Addr → ℕ
  setNonce : σ → Addr → ℕ → σ
  getCodeHash : σ → Addr → Hash
  getRefund : σ → ℕ
  prepareAccessList : σ → Addr → Option Addr → List (AccessTuple Addr Hash) → σ
  addAddressToAccessList : σ → Addr → σ

/-- What the transition reads of the EVM: the chain configuration, the block context, `NoBaseFee` of its
configuration, `CanTransfer`, and the two entries into the interpreter, which return the output, the state,
the gas left and the interpreter's error. -/
structure EVM (σ Addr Hash ε : Type) where
  chainConfig : ChainConfig
  feeCollector : Option Addr
  coinbase : Addr
  baseFee : Option ℕ
  blockNumber : ℕ
  noBaseFee : Bool
  canTransfer : σ → Addr → ℕ → Bool
  create : σ → Addr → List UInt8 → ℕ → ℕ → List UInt8 × σ × ℕ × Option ε
  call : σ → Addr → Addr → List UInt8 → ℕ → ℕ → Bool → List UInt8 × σ × ℕ × Option ε

/-- The hashes `preCheck` compares a sender's code hash with, and `consensus.SystemAddress`. -/
structure TransitionConsts (Addr Hash : Type) where
  emptyCodeHash : Hash
  zeroHash : Hash
  systemAddress : Addr

/-- `ExecutionResult`. -/
structure ExecutionResult (ε : Type) where
  usedGas : ℕ
  err : Option ε
  returnData : List UInt8

/-- What changes as `StateTransition` runs: the state, the block's gas pool, the gas left and the gas
bought. -/
structure Transition (σ : Type) where
  state : σ
  gp : ℕ
  gas : ℕ
  initialGas : ℕ

variable {σ Addr Hash ε : Type} [DecidableEq Hash]

namespace EVM

/-- `ChainRules()`. -/
def chainRules (evm : EVM σ Addr Hash ε) : Rules :=
  evm.chainConfig.rules evm.feeCollector.isSome evm.blockNumber

end EVM

/-- `gasUsed`, in `uint64`. -/
def Transition.gasUsed (t : Transition σ) : ℕ := (t.initialGas + u64 - t.gas) % u64

/-- `GasPool.SubGas`. -/
def subGas (gp amount : ℕ) : Except TransitionError ℕ :=
  if gp < amount then throw .errGasLimitReached else pure (gp - amount)

/-- `GasPool.AddGas`, which panics above `uint64`. -/
def addGas (gp amount : ℕ) : Option ℕ :=
  if gp > maxUint64 - amount then none else some (gp + amount)

variable (ops : StateOps σ Addr Hash) (msg : Message Addr Hash)

/-- `buyGas`: the gas limit times the gas price is taken from the sender, who must hold the gas limit times
the fee cap and the value; the block's gas pool gives the gas. -/
def buyGas (gasBailout : Bool) (t : Transition σ) : Except TransitionError (Transition σ) := do
  let mgval := msg.gasLimit * msg.gasPrice
  if u256 ≤ mgval then throw .errInsufficientFunds
  -- `st.gasFeeCap` is never nil: the balance is checked against the fee cap
  let balanceCheck := msg.gasLimit * msg.feeCap
  if u256 ≤ balanceCheck then throw .errInsufficientFunds
  let balanceCheck := balanceCheck + msg.amount
  if u256 ≤ balanceCheck then throw .errInsufficientFunds
  let subBalance ← if ops.getBalance t.state msg.sender < balanceCheck then
      if !gasBailout then throw .errInsufficientFunds else pure false
    else pure true
  let gp ← match subGas t.gp msg.gasLimit with
    | .ok gp => pure gp
    | .error e => if !gasBailout then throw e else pure t.gp
  let state := if subBalance then ops.subBalance t.state msg.sender mgval else t.state
  pure { state, gp, gas := (t.gas + msg.gasLimit) % u64, initialGas := msg.gasLimit }

/-- `CheckEip1559TxGasFeeCap`. -/
def checkEip1559TxGasFeeCap (gasFeeCap tip : ℕ) (baseFee : Option ℕ) (isFree : Bool) :
    Except TransitionError Unit := do
  if gasFeeCap < tip then throw .errTipAboveFeeCap
  match baseFee with
  | some baseFee => if gasFeeCap < baseFee && !isFree then throw .errFeeCapTooLow
  | none => pure ()

variable (evm : EVM σ Addr Hash ε) (consts : TransitionConsts Addr Hash)

/-- `preCheck`: the nonce and the sender's code when the message asks for it, the fee caps under London,
then `buyGas`. -/
def preCheck (gasBailout : Bool) (t : Transition σ) : Except TransitionError (Transition σ) := do
  if msg.checkNonce then
    let stNonce := ops.getNonce t.state msg.sender
    if stNonce < msg.nonce then throw .errNonceTooHigh
    else if stNonce > msg.nonce then throw .errNonceTooLow
    else if (stNonce + 1) % u64 < stNonce then throw .errNonceMax
    -- EIP-3607: the sender has no code; the zero hash is a sender not in the state
    let codeHash := ops.getCodeHash t.state msg.sender
    if codeHash ≠ consts.emptyCodeHash && codeHash ≠ consts.zeroHash then throw .errSenderNoEOA
  if evm.chainRules.isLondon then
    if !evm.noBaseFee || msg.feeCap ≠ 0 || msg.tip ≠ 0 then
      checkEip1559TxGasFeeCap msg.feeCap msg.tip evm.baseFee msg.isFree
  buyGas ops msg gasBailout t

/-- The intrinsic gas check of `TransitionDb` (clauses 4 and 5): the gas left after the intrinsic gas of the
message under the block's rules. -/
def intrinsicGasCheck (rules : Rules) (gas : ℕ) : Except TransitionError ℕ :=
  match intrinsicGas msg.data msg.accessList msg.toAddr.isNone rules.isHomestead rules.isIstanbul
    rules.isShanghai with
  | .error _ => throw .errGasUintOverflow
  | .ok intrinsic => if gas < intrinsic then throw .errIntrinsicGas else pure (gas - intrinsic)

/-- `refundGas`: the refund counter, capped at the gas used over the quotient, goes back into the gas left,
which is paid back to the sender at the gas price and returned to the block's gas pool. -/
def refundGas (refundQuotient : ℕ) (t : Transition σ) : Option (Transition σ) :=
  let refund := min (t.gasUsed / refundQuotient) (ops.getRefund t.state)
  let gas := (t.gas + refund) % u64
  let remaining := gas * msg.gasPrice % u256
  let state := ops.addBalance t.state msg.sender remaining
  (addGas t.gp gas).map fun gp => { t with state, gas, gp }

/-- The tip per gas the block producer gets: the gas price before London, after it the tip capped at what
the fee cap leaves over the base fee.  A nil base fee under London is a nil dereference. -/
def effectiveTip (rules : Rules) : Option ℕ :=
  if rules.isLondon then
    match evm.baseFee with
    | some baseFee => some (if msg.feeCap > baseFee then min msg.tip (msg.feeCap - baseFee) else 0)
    | none => none
  else some msg.gasPrice

/-- `TransitionDb(refunds, gasBailout)` on a state and a gas pool: the result, the state and the gas pool
after the message. -/
def transitionDb (refunds gasBailout : Bool) (state : σ) (gp : ℕ) :
    Option (Except TransitionError (ExecutionResult ε × σ × ℕ)) :=
  let rules := evm.chainRules
  -- BSC always gave gas bailout due to system transactions
  let gasBailout := gasBailout || rules.isParlia
  match preCheck ops msg evm consts gasBailout ⟨state, gp, 0, 0⟩ with
  | .error e => some (.error e)
  | .ok t =>
    match intrinsicGasCheck msg rules t.gas with
    | .error e => some (.error e)
    | .ok gas =>
      let t := { t with gas }
      let bailout := gasBailout && msg.amount ≠ 0 && !evm.canTransfer t.state msg.sender msg.amount
      let state := if rules.isBerlin then
          let state := ops.prepareAccessList t.state msg.sender msg.toAddr msg.accessList
          -- EIP-3651: a warm coinbase
          if rules.isShanghai then ops.addAddressToAccessList state evm.coinbase else state
        else t.state
      let (ret, state, gas, vmerr) := match msg.toAddr with
        | none => evm.create state msg.sender msg.data t.gas msg.amount
        | some recipient =>
          let state := ops.setNonce state msg.sender ((ops.getNonce state msg.sender + 1) % u64)
          evm.call state msg.sender recipient msg.data t.gas msg.amount bailout
      let t := { t with state, gas }
      let refunded := if refunds then refundGas ops msg (if rules.isLondon then 5 else 2) t else some t
      refunded.bind fun t =>
        (effectiveTip msg evm rules).bind fun tip =>
          let amount := t.gasUsed * tip % u256
          let producer := if rules.isParlia then consts.systemAddress else evm.coinbase
          let state := ops.addBalance t.state producer amount
          let burnt : Option σ :=
            if !msg.isFree && rules.isLondon && rules.isEip1559FeeCollector then
              match evm.feeCollector, evm.baseFee with
              | some collector, some baseFee => some (ops.addBalance state collector (t.gasUsed * baseFee % u256))
              | _, _ => none
            else some state
          burnt.map fun state => .ok (⟨t.gasUsed, vmerr, ret⟩, state, t.gp)

end AmazeChain.Internal
