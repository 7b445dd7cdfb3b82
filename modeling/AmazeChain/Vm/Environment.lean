import AmazeChain.Vm.Instructions
import AmazeChain.Vm.SStore

/-!
# The instructions that reach past the stack and the memory

The rest of `instructions.go` and `eips.go`, the memory functions of `memory_table.go` and the gas functions of
`gas_table.go` and `operations_acl.go` that the jump tables use: the instructions that read the contract, the
transaction, the block and the state, that copy data into the memory (`CALLDATACOPY`, `CODECOPY`,
`EXTCODECOPY`, `RETURNDATACOPY`), that hash, log or return a slice of it, `SLOAD`, `SSTORE`, the jumps, and the
nested frames of `CREATE`, `CREATE2` and the four calls.

What they reach is a `Host` over the context `σ` of `EvmCtx`: the contract that runs, the interpreter's
`readOnly` and `returnData`, the block and transaction context, the reads and writes of the `IntraBlockState`
and the nested frames of the EVM.  A nested frame takes a memory of its own from the pool, so the host reaches
no memory: an instruction writes the memory of its frame only through `Memory.Set`, which keeps its size.  The
gas of `SSTORE` is the host's (`Vm.SStore` models the one from Berlin on), and so is `validJumpdest`
(`Vm.Analysis`).  The model of the loop returns no context, so the state a halting instruction leaves
(`SELFDESTRUCT`) is not carried.

What the loop needs of all this is that every gas function with a memory size prices the expansion with one
`memoryGasCost` at the size `Run` gives it (`expansionThen`, which `memoryCopierGas`, `gasKeccak256`,
`makeGasLog` and the gas of the creations share), that every other gas function leaves the memory
(`LeavesMemory`), and that every instruction leaves the size of the memory and its `lastGasCost`
(`KeepsMemorySize`).
-/

namespace AmazeChain.Vm

open EVM (VmError OpCode)
open Txspool (u64 initCodeWordGas)
open TwosComplement (toInt64)

variable {S σ Addr : Type}

/-! ### The host -/

/-- `params.Rules`: the forks `NewEVMInterpreter` chooses the jump table by; `opCreate` reads `IsHomestead` and
`IsTangerineWhistle`. -/
structure ForkRules where
  isHomestead : Bool
  isTangerineWhistle : Bool
  isSpuriousDragon : Bool
  isByzantium : Bool
  isConstantinople : Bool
  isIstanbul : Bool
  isBerlin : Bool
  isLondon : Bool
  isShanghai : Bool
  isCancun : Bool
  isPrague : Bool
  deriving DecidableEq, Repr

/-- The gas functions of `SSTORE` in the jump tables: `gasSStore`, `gasSStoreEIP2200`, `gasSStoreEIP2929` and
`gasSStoreEIP3529`. -/
inductive SStoreGas where
  | frontier
  | eip2200
  | eip2929
  | eip3529
  deriving DecidableEq, Repr

/-- What the instructions read and change besides the stack, the memory and the gas.  The reads are functions
of the context; the caches a read of the `IntraBlockState` fills are left out. -/
structure Host (σ Addr : Type) extends StateOps σ Addr where
  -- `SetBytes(addr.Bytes())`, and `evm.ChainRules()`
  toWord : Addr → BitVec 256
  chainRules : σ → ForkRules
  -- the contract that runs
  address : σ → Addr
  caller : σ → Addr
  callValue : σ → BitVec 256
  input : σ → List UInt8
  validJumpdest : σ → BitVec 256 → Bool
  -- the interpreter
  readOnly : σ → Bool
  returnData : σ → List UInt8
  setReturnData : σ → List UInt8 → σ
  keccak256 : List UInt8 → BitVec 256
  -- the transaction and the block
  origin : σ → Addr
  gasPrice : σ → BitVec 256
  coinbase : σ → Addr
  time : σ → ℕ
  blockNumber : σ → ℕ
  prevRanDao : σ → Option (BitVec 256)
  difficulty : σ → ℕ
  maxGasLimit : σ → Bool
  gasLimit : σ → ℕ
  getHash : σ → ℕ → BitVec 256
  chainId : σ → BitVec 256
  baseFee : σ → BitVec 256
  -- the `IntraBlockState`
  getBalance : σ → Addr → BitVec 256
  getCodeSize : σ → Addr → ℕ
  getCode : σ → Addr → List UInt8
  getCodeHash : σ → Addr → BitVec 256
  getState : σ → Addr → BitVec 256 → BitVec 256
  setState : σ → Addr → BitVec 256 → BitVec 256 → σ
  slotInAccessList : σ → Addr → BitVec 256 → Bool
  addSlotToAccessList : σ → Addr → BitVec 256 → σ
  hasSelfdestructed : σ → Addr → Bool
  addRefund : σ → ℕ → σ
  addLog : σ → Addr → List (BitVec 256) → List UInt8 → ℕ → σ
  sstoreGas : SStoreGas → σ → ℕ → List (BitVec 256) → Except VmError (ℕ × σ)
  -- the nested frames: `Call`, `CallCode`, `DelegateCall` and `StaticCall` with the gas and value they pass,
  -- and `Create` and `Create2` (with its salt), each with the data returned, the gas left and the error
  call : OpCode → σ → Addr → List UInt8 → ℕ → BitVec 256 → List UInt8 × ℕ × Option VmError × σ
  create : σ → List UInt8 → ℕ → BitVec 256 → Option (BitVec 256) → List UInt8 × Addr × ℕ × Option VmError × σ

/-- The scope with the host's context replaced. -/
def Scope.withState (sc : Scope (EvmCtx σ)) (state : σ) : Scope (EvmCtx σ) :=
  { sc with ctx := { sc.ctx with state } }

@[simp] theorem Scope.withState_mem (sc : Scope (EvmCtx σ)) (state : σ) : (sc.withState state).mem = sc.mem := rfl

@[simp] theorem Scope.withState_stack (sc : Scope (EvmCtx σ)) (state : σ) :
    (sc.withState state).stack = sc.stack := rfl

/-- `ErrReturnDataOutOfBounds`, `ErrInvalidJump` and the error of a difficulty beyond 256 bits, among the
interpreter's other errors. -/
def errReturnDataOutOfBounds : VmError := .other 1

def errInvalidJump : VmError := .other 2

def errDifficultyOverflow : VmError := .other 3

/-! ### The memory and the data -/

/-- `Memory.Set(offset, size, value)`: `copy` of `value` over the `size` bytes at `offset`, as many bytes as both
hold; a size of zero changes nothing, and a slice past the end panics, also when `offset + size` wraps in
`uint64`, as the slice is then reversed. -/
def Memory.set (m : Memory) (offset size : ℕ) (value : List UInt8) : Option Memory :=
  if size = 0 then some m
  else if m.len < offset + size then none
  else
    let n := min size value.length
    some { m with store := m.store.take offset ++ value.take n ++ m.store.drop (offset + n) }

theorem Memory.set_eq_some {m m' : Memory} {offset size : ℕ} {value : List UInt8}
    (h : m.set offset size value = some m') : m'.len = m.len ∧ m'.lastGasCost = m.lastGasCost := by
  unfold Memory.set at h
  split_ifs at h with h0 hlen
  · cases h
    exact ⟨rfl, rfl⟩
  · cases h
    refine ⟨?_, rfl⟩
    simp only [Memory.len, List.length_append, List.length_take, List.length_drop]
    simp only [Memory.len] at hlen
    omega

/-- `Memory.GetCopy(offset, size)`: a fresh slice of `size` bytes holding the store from `offset`, nil for a size
of zero or an offset at or past the end; a negative offset or size panics. -/
def Memory.getCopy (m : Memory) (offset size : ℤ) : Option (List UInt8) :=
  if size = 0 then some []
  else if offset < m.len then
    if offset < 0 ∨ size < 0 then none
    else some (rightPadBytes ((m.store.drop offset.toNat).take size.toNat) size.toNat)
  else some []

/-- `getData`: the bytes of `data` from `start` (cut to its length) to `start + size` in `uint64` (cut to its
length), padded with zeros to `int(size)`; an end that wraps below the start panics. -/
def getData (data : List UInt8) (start size : ℕ) : Option (List UInt8) :=
  let length := data.length
  let start := if start > length then length else start
  let endPos := (start + size) % u64
  let endPos := if endPos > length then length else endPos
  if endPos < start then none
  else some (rightPadBytes ((data.drop start).take (endPos - start)) (toInt64 size).toNat)

/-- `getDataBig`: `getData` from a start that is `MaxUint64` when it does not fit in 64 bits. -/
def getDataBig (data : List UInt8) (start : BitVec 256) (size : ℕ) : Option (List UInt8) :=
  getData data (if u64 ≤ start.toNat then u64 - 1 else start.toNat) size

/-- `calcMemSize64`: `calcMemSize64WithUint` of a length that fits in 64 bits, else an overflow. -/
def calcMemSize64 (off l : BitVec 256) : ℕ × Bool :=
  if u64 ≤ l.toNat then (0, true) else calcMemSize64WithUint off l.toNat

/-! ### The memory sizes of `memory_table.go` -/

/-- The memory of an offset and a length on the stack: `memoryKeccak256`, `memoryReturn`, `memoryRevert` and
`memoryLog` at `0` and `1`, the copies at `0` and `2`, `EXTCODECOPY` at `1` and `3`, the creations at `1` and
`2`. -/
def memoryAt (offPos lenPos : ℕ) (stack : List (BitVec 256)) : ℕ × Bool :=
  calcMemSize64 (back stack offPos) (back stack lenPos)

def memoryKeccak256 : List (BitVec 256) → ℕ × Bool := memoryAt 0 1

def memoryCallDataCopy : List (BitVec 256) → ℕ × Bool := memoryAt 0 2

def memoryReturnDataCopy : List (BitVec 256) → ℕ × Bool := memoryAt 0 2

def memoryCodeCopy : List (BitVec 256) → ℕ × Bool := memoryAt 0 2

def memoryExtCodeCopy : List (BitVec 256) → ℕ × Bool := memoryAt 1 3

def memoryCreate : List (BitVec 256) → ℕ × Bool := memoryAt 1 2

def memoryCreate2 : List (BitVec 256) → ℕ × Bool := memoryAt 1 2

def memoryReturn : List (BitVec 256) → ℕ × Bool := memoryAt 0 1

def memoryRevert : List (BitVec 256) → ℕ × Bool := memoryAt 0 1

def memoryLog : List (BitVec 256) → ℕ × Bool := memoryAt 0 1

/-- The memory of a call: the larger of the returned data's (offset at `retPos`) and the arguments' (offset at
`inPos`), each length above its offset; an overflow of either is an overflow. -/
def memoryCallArgs (retPos inPos : ℕ) (stack : List (BitVec 256)) : ℕ × Bool :=
  let (x, overflow) := memoryAt retPos (retPos + 1) stack
  if overflow then (0, true) else
  let (y, overflow) := memoryAt inPos (inPos + 1) stack
  if overflow then (0, true) else
  if x > y then (x, false) else (y, false)

def memoryCall : List (BitVec 256) → ℕ × Bool := memoryCallArgs 5 3

def memoryDelegateCall : List (BitVec 256) → ℕ × Bool := memoryCallArgs 4 2

def memoryStaticCall : List (BitVec 256) → ℕ × Bool := memoryCallArgs 4 2

/-! ### The gas functions with a memory -/

/-- `params.CopyGas`. -/
def copyGas : ℕ := 3

/-- `params.Keccak256WordGas`. -/
def keccak256WordGas : ℕ := 6

/-- `params.LogGas`. -/
def logGas : ℕ := 375

/-- `params.LogTopicGas`. -/
def logTopicGas : ℕ := 375

/-- `params.LogDataGas`. -/
def logDataGas : ℕ := 8

/-- `params.MaxInitCodeSize`. -/
def maxInitCodeSize : ℕ := 2 * EVM.maxCodeSize

/-- The shape of the gas functions with a memory: the expansion fee `memoryGasCost` charges at the size `Run`
gives, then what `rest` adds to it from the stack, with the memory `memoryGasCost` leaves. -/
def expansionThen (rest : Scope S → ℕ → Except VmError ℕ) : GasFunc S := fun sc memorySize => do
  let (gas, mem) ← memoryGasCost sc.mem memorySize
  let gas ← rest sc gas
  return (gas, { sc with mem })

/-- The gas of `memoryCopierGas`, `gasKeccak256` and `gasCreate2`: `wordGas` for each word of the size at
`stackpos`; every overflow is `ErrGasUintOverflow`. -/
def memoryWordGas (stackpos wordGas : ℕ) : GasFunc S := expansionThen fun sc gas => do
  let words := (back sc.stack stackpos).toNat
  if u64 ≤ words then throw .errGasUintOverflow
  let (words, overflow) := safeMul (toWordSize words) wordGas
  if overflow then throw .errGasUintOverflow
  let (gas, overflow) := safeAdd gas words
  if overflow then throw .errGasUintOverflow
  return gas

/-- `memoryCopierGas(stackpos)`: the data copied is charged per word at `CopyGas`. -/
def memoryCopierGas (stackpos : ℕ) : GasFunc S := memoryWordGas stackpos copyGas

def gasCallDataCopy : GasFunc S := memoryCopierGas 2

def gasCodeCopy : GasFunc S := memoryCopierGas 2

def gasExtCodeCopy : GasFunc S := memoryCopierGas 3

def gasReturnDataCopy : GasFunc S := memoryCopierGas 2

/-- `gasKeccak256`: the data hashed is charged per word at `Keccak256WordGas`. -/
def gasKeccak256 : GasFunc S := memoryWordGas 1 keccak256WordGas

/-- `gasCreate2`: the init code is hashed, per word at `Keccak256WordGas`. -/
def gasCreate2 : GasFunc S := memoryWordGas 2 keccak256WordGas

def gasReturn : GasFunc S := pureMemoryGascost

def gasRevert : GasFunc S := pureMemoryGascost

def gasCreate : GasFunc S := pureMemoryGascost

/-- The gas of `gasCreateEip3860` and `gasCreate2Eip3860`: `wordGas` for each word of the init code, whose size
beyond `MaxInitCodeSize` is `ErrGasUintOverflow`; the product cannot wrap under that size. -/
def initCodeGas (wordGas : ℕ) : GasFunc S := expansionThen fun sc gas => do
  let len := (back sc.stack 2).toNat
  if u64 ≤ len ∨ len > maxInitCodeSize then throw .errGasUintOverflow
  let (gas, overflow) := safeAdd gas (wordGas * toWordSize len)
  if overflow then throw .errGasUintOverflow
  return gas

def gasCreateEip3860 : GasFunc S := initCodeGas initCodeWordGas

def gasCreate2Eip3860 : GasFunc S := initCodeGas (initCodeWordGas + keccak256WordGas)

/-- `makeGasLog(n)`: the size of the data is read before the expansion is priced; then `LogGas`, `n` topics at
`LogTopicGas` and the data at `LogDataGas` a byte. -/
def makeGasLog (n : ℕ) : GasFunc S := fun sc memorySize =>
  let requestedSize := (back sc.stack 1).toNat
  if u64 ≤ requestedSize then .error .errGasUintOverflow
  else expansionThen (fun _ gas => do
    let (gas, overflow) := safeAdd gas logGas
    if overflow then throw .errGasUintOverflow
    let (gas, overflow) := safeAdd gas (n * logTopicGas)
    if overflow then throw .errGasUintOverflow
    let (memorySizeGas, overflow) := safeMul requestedSize logDataGas
    if overflow then throw .errGasUintOverflow
    let (gas, overflow) := safeAdd gas memorySizeGas
    if overflow then throw .errGasUintOverflow
    return gas) sc memorySize

/-- `gasExtCodeCopyEIP2929`: `gasExtCodeCopy`, and the cold surcharge for an address not yet in the access list,
which it joins. -/
def gasExtCodeCopyEIP2929 (ops : StateOps σ Addr) : GasFunc (EvmCtx σ) := fun sc memorySize => do
  -- memory expansion first (dynamic part of pre-2929 implementation)
  let (gas, sc) ← gasExtCodeCopy sc memorySize
  let addr := ops.toAddress (back sc.stack 0)
  if ops.addressInAccessList sc.ctx.state addr then return (gas, sc)
  let sc := sc.withState (ops.addAddressToAccessList sc.ctx.state addr)
  let (gas, overflow) := safeAdd gas (coldAccountAccessCostEIP2929 - warmStorageReadCostEIP2929)
  if overflow then throw .errGasUintOverflow
  return (gas, sc)

theorem expansionThen_charges (rest : Scope S → ℕ → Except VmError ℕ) (n : ℕ) :
    ChargesExpansionAt (expansionThen rest) n := by
  intro sc c sc' h
  unfold expansionThen at h
  simp only [bind, Except.bind] at h
  cases hmem : memoryGasCost sc.mem n with
  | error e => simp [hmem] at h
  | ok r =>
    obtain ⟨fee, mem⟩ := r
    simp only [hmem] at h
    cases hrest : rest sc fee with
    | error e => simp [hrest] at h
    | ok gas =>
      simp only [hrest, pure, Except.pure, Except.ok.injEq, Prod.mk.injEq] at h
      obtain ⟨-, rfl⟩ := h
      exact ⟨fee, rfl⟩

theorem memoryWordGas_charges (stackpos wordGas n : ℕ) :
    ChargesExpansionAt (memoryWordGas (S := S) stackpos wordGas) n :=
  expansionThen_charges _ n

theorem initCodeGas_charges (wordGas n : ℕ) : ChargesExpansionAt (initCodeGas (S := S) wordGas) n :=
  expansionThen_charges _ n

theorem makeGasLog_charges (k n : ℕ) : ChargesExpansionAt (makeGasLog (S := S) k) n := by
  intro sc c sc' h
  unfold makeGasLog at h
  dsimp only at h
  split at h
  · cases h
  · exact expansionThen_charges _ n sc c sc' h

theorem gasExtCodeCopyEIP2929_charges (ops : StateOps σ Addr) (n : ℕ) :
    ChargesExpansionAt (gasExtCodeCopyEIP2929 ops) n := by
  intro sc c sc' h
  unfold gasExtCodeCopyEIP2929 at h
  simp only [bind, Except.bind] at h
  split at h
  · cases h
  · rename_i r hcopy
    obtain ⟨fee, hfee⟩ := memoryWordGas_charges 3 copyGas n sc r.1 r.2 hcopy
    -- what follows the copy's gas only moves the access list
    have hmem : sc'.mem = r.2.mem := by
      split at h
      · simp only [pure, Except.pure, Except.ok.injEq, Prod.mk.injEq] at h
        rw [← h.2]
      · split at h
        · cases h
        · simp only [pure, Except.pure, Except.ok.injEq, Prod.mk.injEq] at h
          rw [← h.2, Scope.withState_mem]
    exact ⟨fee, hmem ▸ hfee⟩

/-! ### The gas functions without a memory -/

/-- `params.SelfdestructGasEIP150`. -/
def selfdestructGasEIP150 : ℕ := 5000

/-- `params.CreateBySelfdestructGas`. -/
def createBySelfdestructGas : ℕ := 25000

/-- `params.SelfdestructRefundGas`. -/
def selfdestructRefundGas : ℕ := 24000

/-- A gas function that leaves the memory, as those of the entries without a memory size do. -/
def LeavesMemory (f : GasFunc S) : Prop := ∀ sc n c sc', f sc n = .ok (c, sc') → sc'.mem = sc.mem

/-- `Run` asks a gas function without a memory size for the size zero, where `memoryGasCost` leaves the memory
as it is. -/
theorem LeavesMemory.charges_zero {f : GasFunc S} (h : LeavesMemory f) : ChargesExpansionAt f 0 := by
  intro sc c sc' hf
  refine ⟨0, ?_⟩
  rw [h sc 0 c sc' hf, memoryGasCost, if_pos rfl]

/-- `gasEip2929AccountCheck`: the cold surcharge above the warm cost already charged, for an address (the top
item) not yet in the access list, which it joins. -/
def gasEip2929AccountCheck (ops : StateOps σ Addr) : GasFunc (EvmCtx σ) := fun sc _ =>
  let addr := ops.toAddress (back sc.stack 0)
  if ops.addressInAccessList sc.ctx.state addr then .ok (0, sc)
  else .ok (coldAccountAccessCostEIP2929 - warmStorageReadCostEIP2929,
    sc.withState (ops.addAddressToAccessList sc.ctx.state addr))

/-- `gasSLoadEIP2929`: `ColdSloadCostEIP2929` for a slot of the contract not yet in the access list, which it
joins, and the warm cost for one in it. -/
def gasSLoadEIP2929 (host : Host σ Addr) : GasFunc (EvmCtx σ) := fun sc _ =>
  let s := sc.ctx.state
  let slot := back sc.stack 0
  if host.slotInAccessList s (host.address s) slot then .ok (warmStorageReadCostEIP2929, sc)
  else .ok (coldSloadCostEIP2929, sc.withState (host.addSlotToAccessList s (host.address s) slot))

/-- `makeSelfdestructGasFn(refundsEnabled)`: the cold cost of the beneficiary, a new account when it is empty
and the contract holds a balance, and the refund when enabled and the contract has not self-destructed yet. -/
def makeSelfdestructGasFn (host : Host σ Addr) (refundsEnabled : Bool) : GasFunc (EvmCtx σ) := fun sc _ =>
  let s := sc.ctx.state
  let address := host.toAddress (back sc.stack 0)
  let (gas, s) :=
    if host.addressInAccessList s address then (0, s)
    else (coldAccountAccessCostEIP2929, host.addAddressToAccessList s address)
  let (empty, s) := host.empty s address
  let gas := if empty ∧ host.getBalance s (host.address s) ≠ 0 then gas + createBySelfdestructGas else gas
  let s := if refundsEnabled ∧ !host.hasSelfdestructed s (host.address s) then host.addRefund s selfdestructRefundGas
    else s
  .ok (gas, sc.withState s)

def gasSelfdestructEIP2929 (host : Host σ Addr) : GasFunc (EvmCtx σ) := makeSelfdestructGasFn host true

def gasSelfdestructEIP3529 (host : Host σ Addr) : GasFunc (EvmCtx σ) := makeSelfdestructGasFn host false

/-- `gasSelfdestruct`, before Berlin: from TangerineWhistle `SelfdestructGasEIP150`, with a new account for a
beneficiary that is empty while the contract holds a balance (SpuriousDragon) or that does not exist (before);
and the refund when the contract has not self-destructed yet. -/
def gasSelfdestruct (host : Host σ Addr) : GasFunc (EvmCtx σ) := fun sc _ =>
  let s := sc.ctx.state
  let address := host.toAddress (back sc.stack 0)
  let (gas, s) :=
    if sc.ctx.rules.isTangerineWhistle then
      if sc.ctx.rules.isSpuriousDragon then
        let (empty, s) := host.empty s address
        (selfdestructGasEIP150 +
          if empty ∧ host.getBalance s (host.address s) ≠ 0 then createBySelfdestructGas else 0, s)
      else
        let (exist, s) := host.exist s address
        (selfdestructGasEIP150 + if exist then 0 else createBySelfdestructGas, s)
    else (0, s)
  let s := if host.hasSelfdestructed s (host.address s) then s else host.addRefund s selfdestructRefundGas
  .ok (gas, sc.withState s)

/-- The gas functions of `SSTORE`, the host's, on the contract's gas and the stack. -/
def sstoreGasFunc (host : Host σ Addr) (rule : SStoreGas) : GasFunc (EvmCtx σ) := fun sc _ =>
  (host.sstoreGas rule sc.ctx.state sc.gas sc.stack).map fun (gas, s) => (gas, sc.withState s)

-- `Vm.SStore` holds the models of `gasSStoreEIP2929`, `gasSStoreEIP3529` and `opSstore` over the
-- `IntraBlockState`; the host's are named under `Host`.
def Host.gasSStore (host : Host σ Addr) : GasFunc (EvmCtx σ) := sstoreGasFunc host .frontier

def Host.gasSStoreEIP2200 (host : Host σ Addr) : GasFunc (EvmCtx σ) := sstoreGasFunc host .eip2200

def Host.gasSStoreEIP2929 (host : Host σ Addr) : GasFunc (EvmCtx σ) := sstoreGasFunc host .eip2929

def Host.gasSStoreEIP3529 (host : Host σ Addr) : GasFunc (EvmCtx σ) := sstoreGasFunc host .eip3529

theorem gasEip2929AccountCheck_leavesMemory (ops : StateOps σ Addr) : LeavesMemory (gasEip2929AccountCheck ops) := by
  intro sc n c sc' h
  unfold gasEip2929AccountCheck at h
  dsimp only at h
  split at h <;> cases h <;> rfl

theorem gasSLoadEIP2929_leavesMemory (host : Host σ Addr) : LeavesMemory (gasSLoadEIP2929 host) := by
  intro sc n c sc' h
  unfold gasSLoadEIP2929 at h
  dsimp only at h
  split at h <;> cases h <;> rfl

theorem makeSelfdestructGasFn_leavesMemory (host : Host σ Addr) (refundsEnabled : Bool) :
    LeavesMemory (makeSelfdestructGasFn host refundsEnabled) := by
  intro sc n c sc' h
  unfold makeSelfdestructGasFn at h
  cases h
  rfl

theorem gasSelfdestruct_leavesMemory (host : Host σ Addr) : LeavesMemory (gasSelfdestruct host) := by
  intro sc n c sc' h
  unfold gasSelfdestruct at h
  cases h
  rfl

theorem sstoreGasFunc_leavesMemory (host : Host σ Addr) (rule : SStoreGas) :
    LeavesMemory (sstoreGasFunc host rule) := by
  intro sc n c sc' h
  unfold sstoreGasFunc at h
  cases hgas : host.sstoreGas rule sc.ctx.state sc.gas sc.stack with
  | error e => simp [hgas, Except.map] at h
  | ok r =>
    simp only [hgas, Except.map, Except.ok.injEq, Prod.mk.injEq] at h
    rw [← h.2, Scope.withState_mem]

/-! ### Instructions that leave the memory -/

/-- An instruction that leaves the size of the memory and its `lastGasCost`, what `KeepsMemoryAccount` asks of
it. -/
def KeepsMemorySize (execute : List UInt8 → ℕ → Scope S → Option (ExecResult S)) : Prop :=
  ∀ code pc sc pc' sc', execute code pc sc = some (.next pc' sc') →
    sc'.mem.len = sc.mem.len ∧ sc'.mem.lastGasCost = sc.mem.lastGasCost

theorem KeepsMemorySize.of_mem {execute : List UInt8 → ℕ → Scope S → Option (ExecResult S)}
    (h : ∀ code pc sc pc' sc', execute code pc sc = some (.next pc' sc') → sc'.mem = sc.mem) :
    KeepsMemorySize execute := by
  intro code pc sc pc' sc' hexec
  rw [h code pc sc pc' sc' hexec]
  exact ⟨rfl, rfl⟩

/-- An instruction that replaces the top item `x` with what `f` reads off the context and `x` (`Peek`), with the
context the read leaves. -/
def peekOp (f : σ → BitVec 256 → BitVec 256 × σ) (_ : List UInt8) (pc : ℕ) (sc : Scope (EvmCtx σ)) :
    Option (ExecResult (EvmCtx σ)) :=
  match sc.stack with
  | x :: stack =>
    let (v, s) := f sc.ctx.state x
    some (.next pc { sc.withState s with stack := v :: stack })
  | [] => none

theorem peekOp_keepsMemorySize (f : σ → BitVec 256 → BitVec 256 × σ) : KeepsMemorySize (peekOp f) := by
  refine KeepsMemorySize.of_mem fun code pc sc pc' sc' h => ?_
  unfold peekOp at h
  split at h
  · cases h
    rfl
  · cases h

/-- `opAddress`. -/
def opAddress (host : Host σ Addr) : List UInt8 → ℕ → Scope (EvmCtx σ) → Option (ExecResult (EvmCtx σ)) :=
  pushOp fun _ sc => host.toWord (host.address sc.ctx.state)

/-- `opBalance`. -/
def opBalance (host : Host σ Addr) : List UInt8 → ℕ → Scope (EvmCtx σ) → Option (ExecResult (EvmCtx σ)) :=
  peekOp fun s slot => (host.getBalance s (host.toAddress slot), s)

/-- `opOrigin`. -/
def opOrigin (host : Host σ Addr) : List UInt8 → ℕ → Scope (EvmCtx σ) → Option (ExecResult (EvmCtx σ)) :=
  pushOp fun _ sc => host.toWord (host.origin sc.ctx.state)

/-- `opCaller`. -/
def opCaller (host : Host σ Addr) : List UInt8 → ℕ → Scope (EvmCtx σ) → Option (ExecResult (EvmCtx σ)) :=
  pushOp fun _ sc => host.toWord (host.caller sc.ctx.state)

/-- `opCallValue`. -/
def opCallValue (host : Host σ Addr) : List UInt8 → ℕ → Scope (EvmCtx σ) → Option (ExecResult (EvmCtx σ)) :=
  pushOp fun _ sc => host.callValue sc.ctx.state

/-- `opCallDataLoad`: the 32 bytes of the input at an offset that fits in 64 bits, zero otherwise; a read that
`getData` cannot make panics. -/
def opCallDataLoad (host : Host σ Addr) (_ : List UInt8) (pc : ℕ) (sc : Scope (EvmCtx σ)) :
    Option (ExecResult (EvmCtx σ)) :=
  match sc.stack with
  | x :: stack =>
    if u64 ≤ x.toNat then some (.next pc { sc with stack := 0 :: stack })
    else (getData (host.input sc.ctx.state) x.toNat 32).map fun data =>
      .next pc { sc with stack := Uint256.setBytes data :: stack }
  | [] => none

/-- `opCallDataSize`. -/
def opCallDataSize (host : Host σ Addr) : List UInt8 → ℕ → Scope (EvmCtx σ) → Option (ExecResult (EvmCtx σ)) :=
  pushOp fun _ sc => BitVec.ofNat 256 (host.input sc.ctx.state).length

/-- The end of the copying instructions: `data` set over the `length` bytes of the memory at `memOffset`, with the
stack left. -/
def copyToMemory (pc : ℕ) (sc : Scope S) (stack : List (BitVec 256)) (memOffset length : ℕ) (data : List UInt8) :
    Option (ExecResult S) :=
  (sc.mem.set memOffset length data).map fun mem => .next pc { sc with stack, mem }

theorem copyToMemory_eq_next {pc pc' : ℕ} {sc sc' : Scope S} {stack : List (BitVec 256)} {memOffset length : ℕ}
    {data : List UInt8} (h : copyToMemory pc sc stack memOffset length data = some (.next pc' sc')) :
    sc'.mem.len = sc.mem.len ∧ sc'.mem.lastGasCost = sc.mem.lastGasCost := by
  obtain ⟨mem, hset, hnext⟩ := Option.map_eq_some_iff.1 h
  cases hnext
  exact Memory.set_eq_some hset

/-- `opCallDataCopy`: the input from an offset that is `MaxUint64` beyond 64 bits; the memory offset and the length
are read in 64 bits, as the memory size has checked them. -/
def opCallDataCopy (host : Host σ Addr) (_ : List UInt8) (pc : ℕ) (sc : Scope (EvmCtx σ)) :
    Option (ExecResult (EvmCtx σ)) :=
  match sc.stack with
  | memOffset :: dataOffset :: length :: stack =>
    let dataOffset64 := if u64 ≤ dataOffset.toNat then u64 - 1 else dataOffset.toNat
    let length64 := length.toNat % u64
    (getData (host.input sc.ctx.state) dataOffset64 length64).bind fun data =>
      copyToMemory pc sc stack (memOffset.toNat % u64) length64 data
  | _ => none

/-- `opCodeSize`. -/
def opCodeSize (code : List UInt8) (pc : ℕ) (sc : Scope S) : Option (ExecResult S) :=
  some (.next pc { sc with stack := BitVec.ofNat 256 code.length :: sc.stack })

/-- `opCodeCopy`. -/
def opCodeCopy (code : List UInt8) (pc : ℕ) (sc : Scope S) : Option (ExecResult S) :=
  match sc.stack with
  | memOffset :: codeOffset :: length :: stack =>
    let uint64CodeOffset := if u64 ≤ codeOffset.toNat then u64 - 1 else codeOffset.toNat
    (getData code uint64CodeOffset (length.toNat % u64)).bind fun codeCopy =>
      copyToMemory pc sc stack (memOffset.toNat % u64) (length.toNat % u64) codeCopy
  | _ => none

/-- `opGasprice`. -/
def opGasprice (host : Host σ Addr) : List UInt8 → ℕ → Scope (EvmCtx σ) → Option (ExecResult (EvmCtx σ)) :=
  pushOp fun _ sc => host.gasPrice sc.ctx.state

/-- `opExtCodeSize`. -/
def opExtCodeSize (host : Host σ Addr) : List UInt8 → ℕ → Scope (EvmCtx σ) → Option (ExecResult (EvmCtx σ)) :=
  peekOp fun s slot => (BitVec.ofNat 256 (host.getCodeSize s (host.toAddress slot)), s)

/-- `opExtCodeCopy`. -/
def opExtCodeCopy (host : Host σ Addr) (_ : List UInt8) (pc : ℕ) (sc : Scope (EvmCtx σ)) :
    Option (ExecResult (EvmCtx σ)) :=
  match sc.stack with
  | a :: memOffset :: codeOffset :: length :: stack =>
    let len64 := length.toNat % u64
    (getDataBig (host.getCode sc.ctx.state (host.toAddress a)) codeOffset len64).bind fun codeCopy =>
      copyToMemory pc sc stack (memOffset.toNat % u64) len64 codeCopy
  | _ => none

/-- `opReturnDataSize`. -/
def opReturnDataSize (host : Host σ Addr) : List UInt8 → ℕ → Scope (EvmCtx σ) → Option (ExecResult (EvmCtx σ)) :=
  pushOp fun _ sc => BitVec.ofNat 256 (host.returnData sc.ctx.state).length

/-- `opReturnDataCopy`: `ErrReturnDataOutOfBounds` for an offset beyond 64 bits, an end `dataOffset + length` that
wraps in 256 bits, does not fit in 64, or lies past the return data. -/
def opReturnDataCopy (host : Host σ Addr) (_ : List UInt8) (pc : ℕ) (sc : Scope (EvmCtx σ)) :
    Option (ExecResult (EvmCtx σ)) :=
  match sc.stack with
  | memOffset :: dataOffset :: length :: stack =>
    let returnData := host.returnData sc.ctx.state
    let offset64 := dataOffset.toNat
    let end64 := dataOffset.toNat + length.toNat
    if u64 ≤ offset64 ∨ 2 ^ 256 ≤ end64 ∨ u64 ≤ end64 ∨ returnData.length < end64 then
      some (.halt [] errReturnDataOutOfBounds)
    else
      copyToMemory pc sc stack (memOffset.toNat % u64) (length.toNat % u64)
        ((returnData.drop offset64).take (end64 - offset64))
  | _ => none

/-- `opExtCodeHash`: zero for an empty account, else its code hash. -/
def opExtCodeHash (host : Host σ Addr) : List UInt8 → ℕ → Scope (EvmCtx σ) → Option (ExecResult (EvmCtx σ)) :=
  peekOp fun s slot =>
    let address := host.toAddress slot
    let (empty, s) := host.empty s address
    (if empty then 0 else host.getCodeHash s address, s)

/-- `opBlockhash`: the hash of one of the 256 blocks below the current one, zero for any other number. -/
def opBlockhash (host : Host σ Addr) : List UInt8 → ℕ → Scope (EvmCtx σ) → Option (ExecResult (EvmCtx σ)) :=
  peekOp fun s num =>
    if u64 ≤ num.toNat then (0, s)
    else
      let upper := host.blockNumber s
      let lower := if upper < 257 then 0 else upper - 256
      (if lower ≤ num.toNat ∧ num.toNat < upper then host.getHash s num.toNat else 0, s)

/-- `opCoinbase`. -/
def opCoinbase (host : Host σ Addr) : List UInt8 → ℕ → Scope (EvmCtx σ) → Option (ExecResult (EvmCtx σ)) :=
  pushOp fun _ sc => host.toWord (host.coinbase sc.ctx.state)

/-- `opTimestamp`. -/
def opTimestamp (host : Host σ Addr) : List UInt8 → ℕ → Scope (EvmCtx σ) → Option (ExecResult (EvmCtx σ)) :=
  pushOp fun _ sc => BitVec.ofNat 256 (host.time sc.ctx.state)

/-- `opNumber`. -/
def opNumber (host : Host σ Addr) : List UInt8 → ℕ → Scope (EvmCtx σ) → Option (ExecResult (EvmCtx σ)) :=
  pushOp fun _ sc => BitVec.ofNat 256 (host.blockNumber sc.ctx.state)

/-- `opDifficulty`: `PrevRanDao` when the block has one (EIP-4399), else the difficulty, which fails beyond 256
bits. -/
def opDifficulty (host : Host σ Addr) (_ : List UInt8) (pc : ℕ) (sc : Scope (EvmCtx σ)) :
    Option (ExecResult (EvmCtx σ)) :=
  match host.prevRanDao sc.ctx.state with
  | some v => some (.next pc { sc with stack := v :: sc.stack })
  | none =>
    let d := host.difficulty sc.ctx.state
    if 2 ^ 256 ≤ d then some (.halt [] errDifficultyOverflow)
    else some (.next pc { sc with stack := BitVec.ofNat 256 d :: sc.stack })

/-- `opGasLimit`: all ones under `MaxGasLimit`. -/
def opGasLimit (host : Host σ Addr) : List UInt8 → ℕ → Scope (EvmCtx σ) → Option (ExecResult (EvmCtx σ)) :=
  pushOp fun _ sc =>
    if host.maxGasLimit sc.ctx.state then BitVec.allOnes 256 else BitVec.ofNat 256 (host.gasLimit sc.ctx.state)

/-- `opChainID`. -/
def opChainID (host : Host σ Addr) : List UInt8 → ℕ → Scope (EvmCtx σ) → Option (ExecResult (EvmCtx σ)) :=
  pushOp fun _ sc => host.chainId sc.ctx.state

/-- `opSelfBalance`. -/
def opSelfBalance (host : Host σ Addr) : List UInt8 → ℕ → Scope (EvmCtx σ) → Option (ExecResult (EvmCtx σ)) :=
  pushOp fun _ sc => host.getBalance sc.ctx.state (host.address sc.ctx.state)

/-- `opBaseFee`. -/
def opBaseFee (host : Host σ Addr) : List UInt8 → ℕ → Scope (EvmCtx σ) → Option (ExecResult (EvmCtx σ)) :=
  pushOp fun _ sc => host.baseFee sc.ctx.state

/-- `opKeccak256`: the hash of the memory slice at the offset replaces the size. -/
def opKeccak256 (host : Host σ Addr) (_ : List UInt8) (pc : ℕ) (sc : Scope (EvmCtx σ)) :
    Option (ExecResult (EvmCtx σ)) :=
  match sc.stack with
  | offset :: size :: stack =>
    (sc.mem.getPtr (toInt64 (offset.toNat % u64)) (toInt64 (size.toNat % u64))).map fun data =>
      .next pc { sc with stack := host.keccak256 data :: stack }
  | _ => none

/-- `opSload`. -/
def opSload (host : Host σ Addr) : List UInt8 → ℕ → Scope (EvmCtx σ) → Option (ExecResult (EvmCtx σ)) :=
  peekOp fun s loc => (host.getState s (host.address s) loc, s)

/-- `opSstore`: `ErrWriteProtection` in a read-only frame. -/
def Host.opSstore (host : Host σ Addr) (_ : List UInt8) (pc : ℕ) (sc : Scope (EvmCtx σ)) :
    Option (ExecResult (EvmCtx σ)) :=
  let s := sc.ctx.state
  if host.readOnly s then some (.halt [] .errWriteProtection)
  else
    match sc.stack with
    | loc :: val :: stack => some (.next pc { sc.withState (host.setState s (host.address s) loc val) with stack })
    | _ => none

/-- `pos.Uint64() - 1` in `uint64`: the program counter a jump leaves for `Run` to step onto `pos`. -/
def jumpTarget (pos : BitVec 256) : ℕ := (pos.toNat % u64 + (u64 - 1)) % u64

/-- `opJump`: `ErrInvalidJump` for a destination `validJumpdest` rejects. -/
def opJump (host : Host σ Addr) (_ : List UInt8) (_ : ℕ) (sc : Scope (EvmCtx σ)) :
    Option (ExecResult (EvmCtx σ)) :=
  match sc.stack with
  | pos :: stack =>
    if host.validJumpdest sc.ctx.state pos then some (.next (jumpTarget pos) { sc with stack })
    else some (.halt [] errInvalidJump)
  | [] => none

/-- `opJumpi`: the jump of `opJump` when the condition is not zero. -/
def opJumpi (host : Host σ Addr) (_ : List UInt8) (pc : ℕ) (sc : Scope (EvmCtx σ)) :
    Option (ExecResult (EvmCtx σ)) :=
  match sc.stack with
  | pos :: cond :: stack =>
    if cond ≠ 0 then
      if host.validJumpdest sc.ctx.state pos then some (.next (jumpTarget pos) { sc with stack })
      else some (.halt [] errInvalidJump)
    else some (.next pc { sc with stack })
  | _ => none

/-- `makeLog(size)`: `ErrWriteProtection` in a read-only frame; else a log of the contract with `size` topics and
a copy of the memory slice. -/
def makeLog (host : Host σ Addr) (size : ℕ) (_ : List UInt8) (pc : ℕ) (sc : Scope (EvmCtx σ)) :
    Option (ExecResult (EvmCtx σ)) :=
  let s := sc.ctx.state
  if host.readOnly s then some (.halt [] .errWriteProtection)
  else
    match sc.stack with
    | mStart :: mSize :: stack =>
      -- popping a topic off an empty stack panics
      if stack.length < size then none
      else (sc.mem.getCopy (toInt64 (mStart.toNat % u64)) (toInt64 (mSize.toNat % u64))).map fun d =>
        .next pc { sc.withState (host.addLog s (host.address s) (stack.take size) d (host.blockNumber s)) with
          stack := stack.drop size }
    | _ => none

/-- `opReturn`. -/
def opReturn (_ : List UInt8) (_ : ℕ) (sc : Scope S) : Option (ExecResult S) :=
  match sc.stack with
  | offset :: size :: _ =>
    (sc.mem.getPtr (toInt64 (offset.toNat % u64)) (toInt64 (size.toNat % u64))).map fun ret =>
      .halt ret .errStopToken
  | _ => none

/-- `opRevert`: the slice is also the interpreter's `returnData`, which the calling instruction replaces. -/
def opRevert (_ : List UInt8) (_ : ℕ) (sc : Scope S) : Option (ExecResult S) :=
  match sc.stack with
  | offset :: size :: _ =>
    (sc.mem.getPtr (toInt64 (offset.toNat % u64)) (toInt64 (size.toNat % u64))).map fun ret =>
      .halt ret .errExecutionReverted
  | _ => none

/-- `opSelfdestruct`: `ErrWriteProtection` in a read-only frame; else the balance moves to the beneficiary, the
contract self-destructs and the frame ends. -/
def opSelfdestruct (host : Host σ Addr) (_ : List UInt8) (_ : ℕ) (sc : Scope (EvmCtx σ)) :
    Option (ExecResult (EvmCtx σ)) :=
  if host.readOnly sc.ctx.state then some (.halt [] .errWriteProtection)
  else
    match sc.stack with
    | _ :: _ => some (.halt [] .errStopToken)
    | [] => none

theorem opCallDataLoad_keepsMemorySize (host : Host σ Addr) : KeepsMemorySize (opCallDataLoad host) := by
  refine KeepsMemorySize.of_mem fun code pc sc pc' sc' h => ?_
  unfold opCallDataLoad at h
  split at h
  · split at h
    · cases h
      rfl
    · obtain ⟨data, -, hnext⟩ := Option.map_eq_some_iff.1 h
      cases hnext
      rfl
  · cases h

theorem opCallDataCopy_keepsMemorySize (host : Host σ Addr) : KeepsMemorySize (opCallDataCopy host) := by
  intro code pc sc pc' sc' h
  unfold opCallDataCopy at h
  split at h
  · obtain ⟨data, -, hcopy⟩ := Option.bind_eq_some_iff.1 h
    exact copyToMemory_eq_next hcopy
  · cases h

theorem opCodeSize_keepsMemorySize : KeepsMemorySize (opCodeSize (S := S)) := by
  refine KeepsMemorySize.of_mem fun code pc sc pc' sc' h => ?_
  cases h
  rfl

theorem opCodeCopy_keepsMemorySize : KeepsMemorySize (opCodeCopy (S := S)) := by
  intro code pc sc pc' sc' h
  unfold opCodeCopy at h
  split at h
  · obtain ⟨data, -, hcopy⟩ := Option.bind_eq_some_iff.1 h
    exact copyToMemory_eq_next hcopy
  · cases h

theorem opExtCodeCopy_keepsMemorySize (host : Host σ Addr) : KeepsMemorySize (opExtCodeCopy host) := by
  intro code pc sc pc' sc' h
  unfold opExtCodeCopy at h
  split at h
  · obtain ⟨data, -, hcopy⟩ := Option.bind_eq_some_iff.1 h
    exact copyToMemory_eq_next hcopy
  · cases h

theorem opReturnDataCopy_keepsMemorySize (host : Host σ Addr) : KeepsMemorySize (opReturnDataCopy host) := by
  intro code pc sc pc' sc' h
  unfold opReturnDataCopy at h
  dsimp only at h
  split at h
  · split at h
    · cases h
    · exact copyToMemory_eq_next h
  · cases h

theorem opDifficulty_keepsMemorySize (host : Host σ Addr) : KeepsMemorySize (opDifficulty host) := by
  refine KeepsMemorySize.of_mem fun code pc sc pc' sc' h => ?_
  unfold opDifficulty at h
  dsimp only at h
  split at h
  · cases h
    rfl
  · split at h
    · cases h
    · cases h
      rfl

theorem opKeccak256_keepsMemorySize (host : Host σ Addr) : KeepsMemorySize (opKeccak256 host) := by
  refine KeepsMemorySize.of_mem fun code pc sc pc' sc' h => ?_
  unfold opKeccak256 at h
  split at h
  · obtain ⟨data, -, hnext⟩ := Option.map_eq_some_iff.1 h
    cases hnext
    rfl
  · cases h

theorem Host.opSstore_keepsMemorySize (host : Host σ Addr) : KeepsMemorySize host.opSstore := by
  refine KeepsMemorySize.of_mem fun code pc sc pc' sc' h => ?_
  unfold Host.opSstore at h
  dsimp only at h
  split at h
  · cases h
  · split at h
    · cases h
      rfl
    · cases h

theorem opJump_keepsMemorySize (host : Host σ Addr) : KeepsMemorySize (opJump host) := by
  refine KeepsMemorySize.of_mem fun code pc sc pc' sc' h => ?_
  unfold opJump at h
  split at h
  · split at h
    · simp only [Option.some.injEq, ExecResult.next.injEq] at h
      rw [← h.2]
    · cases h
  · cases h

theorem opJumpi_keepsMemorySize (host : Host σ Addr) : KeepsMemorySize (opJumpi host) := by
  refine KeepsMemorySize.of_mem fun code pc sc pc' sc' h => ?_
  unfold opJumpi at h
  split at h
  · split at h
    · split at h
      · simp only [Option.some.injEq, ExecResult.next.injEq] at h
        rw [← h.2]
      · cases h
    · cases h
      rfl
  · cases h

theorem makeLog_keepsMemorySize (host : Host σ Addr) (size : ℕ) : KeepsMemorySize (makeLog host size) := by
  refine KeepsMemorySize.of_mem fun code pc sc pc' sc' h => ?_
  unfold makeLog at h
  dsimp only at h
  split at h
  · cases h
  · split at h
    · split at h
      · cases h
      · obtain ⟨d, -, hnext⟩ := Option.map_eq_some_iff.1 h
        cases hnext
        rfl
    · cases h

theorem opReturn_keepsMemorySize : KeepsMemorySize (opReturn (S := S)) := by
  intro code pc sc pc' sc' h
  unfold opReturn at h
  split at h
  · obtain ⟨ret, -, hnext⟩ := Option.map_eq_some_iff.1 h
    cases hnext
  · cases h

theorem opRevert_keepsMemorySize : KeepsMemorySize (opRevert (S := S)) := by
  intro code pc sc pc' sc' h
  unfold opRevert at h
  split at h
  · obtain ⟨ret, -, hnext⟩ := Option.map_eq_some_iff.1 h
    cases hnext
  · cases h

theorem opSelfdestruct_keepsMemorySize (host : Host σ Addr) : KeepsMemorySize (opSelfdestruct host) := by
  intro code pc sc pc' sc' h
  unfold opSelfdestruct at h
  split at h
  · cases h
  · split at h <;> cases h

/-! ### The nested frames -/

/-- `params.CallStipend`. -/
def callStipend : ℕ := 2300

/-- What the four calls do once the nested frame returns: `1` on the stack for no error and `0` otherwise, the
returned data copied into the memory at `retOffset` when the frame succeeded or reverted, the gas it returns
added back in `uint64`, and the data kept as the interpreter's `returnData`. -/
def callReturn (host : Host σ Addr) (pc : ℕ) (sc : Scope (EvmCtx σ)) (stack : List (BitVec 256))
    (retOffset retSize : BitVec 256) (ret : List UInt8) (returnGas : ℕ) (err : Option VmError) (s : σ) :
    Option (ExecResult (EvmCtx σ)) :=
  let temp : BitVec 256 := if err = none then 1 else 0
  let mem :=
    if err = none ∨ err = some .errExecutionReverted then sc.mem.set (retOffset.toNat % u64) (retSize.toNat % u64) ret
    else some sc.mem
  mem.map fun mem =>
    .next pc { sc.withState (host.setReturnData s ret) with
      stack := temp :: stack, mem, gas := (sc.gas + returnGas) % u64 }

theorem callReturn_keepsMemorySize {host : Host σ Addr} {pc pc' : ℕ} {sc sc' : Scope (EvmCtx σ)}
    {stack : List (BitVec 256)} {retOffset retSize : BitVec 256} {ret : List UInt8} {returnGas : ℕ}
    {err : Option VmError} {s : σ}
    (h : callReturn host pc sc stack retOffset retSize ret returnGas err s = some (.next pc' sc')) :
    sc'.mem.len = sc.mem.len ∧ sc'.mem.lastGasCost = sc.mem.lastGasCost := by
  unfold callReturn at h
  obtain ⟨mem, hmem, hnext⟩ := Option.map_eq_some_iff.1 h
  cases hnext
  split at hmem
  · exact Memory.set_eq_some hmem
  · cases hmem
    exact ⟨rfl, rfl⟩

/-- `opCall`: the callee gets `callGasTemp`, with the stipend when value moves, which a read-only frame refuses
with `ErrWriteProtection`. -/
def opCall (host : Host σ Addr) (_ : List UInt8) (pc : ℕ) (sc : Scope (EvmCtx σ)) :
    Option (ExecResult (EvmCtx σ)) :=
  match sc.stack with
  | _ :: addr :: value :: inOffset :: inSize :: retOffset :: retSize :: stack =>
    (sc.mem.getPtr (toInt64 (inOffset.toNat % u64)) (toInt64 (inSize.toNat % u64))).bind fun args =>
      if value ≠ 0 ∧ host.readOnly sc.ctx.state then some (.halt [] .errWriteProtection)
      else
        let gas := if value ≠ 0 then (sc.ctx.callGasTemp + callStipend) % u64 else sc.ctx.callGasTemp
        let (ret, returnGas, err, s) := host.call .call sc.ctx.state (host.toAddress addr) args gas value
        callReturn host pc sc stack retOffset retSize ret returnGas err s
  | _ => none

/-- `opCallCode`: as `opCall`, but a value is no write and passes in a read-only frame. -/
def opCallCode (host : Host σ Addr) (_ : List UInt8) (pc : ℕ) (sc : Scope (EvmCtx σ)) :
    Option (ExecResult (EvmCtx σ)) :=
  match sc.stack with
  | _ :: addr :: value :: inOffset :: inSize :: retOffset :: retSize :: stack =>
    (sc.mem.getPtr (toInt64 (inOffset.toNat % u64)) (toInt64 (inSize.toNat % u64))).bind fun args =>
      let gas := if value ≠ 0 then (sc.ctx.callGasTemp + callStipend) % u64 else sc.ctx.callGasTemp
      let (ret, returnGas, err, s) := host.call .callCode sc.ctx.state (host.toAddress addr) args gas value
      callReturn host pc sc stack retOffset retSize ret returnGas err s
  | _ => none

/-- The calls without a value, `opDelegateCall` and `opStaticCall`: six items, and `callGasTemp` for the callee. -/
def callWithoutValue (host : Host σ Addr) (typ : OpCode) (_ : List UInt8) (pc : ℕ) (sc : Scope (EvmCtx σ)) :
    Option (ExecResult (EvmCtx σ)) :=
  match sc.stack with
  | _ :: addr :: inOffset :: inSize :: retOffset :: retSize :: stack =>
    (sc.mem.getPtr (toInt64 (inOffset.toNat % u64)) (toInt64 (inSize.toNat % u64))).bind fun args =>
      let (ret, returnGas, err, s) := host.call typ sc.ctx.state (host.toAddress addr) args sc.ctx.callGasTemp 0
      callReturn host pc sc stack retOffset retSize ret returnGas err s
  | _ => none

def opDelegateCall (host : Host σ Addr) : List UInt8 → ℕ → Scope (EvmCtx σ) → Option (ExecResult (EvmCtx σ)) :=
  callWithoutValue host .delegateCall

def opStaticCall (host : Host σ Addr) : List UInt8 → ℕ → Scope (EvmCtx σ) → Option (ExecResult (EvmCtx σ)) :=
  callWithoutValue host .staticCall

/-- `opCreate`: `ErrWriteProtection` in a read-only frame; else all the gas, but a 64th from TangerineWhistle, goes
to the new frame, the address (zero on an error, and on `ErrCodeStoreOutOfGas` from Homestead) replaces the size,
the gas left comes back in `uint64`, and the return data is what a revert returned. -/
def opCreate (host : Host σ Addr) (_ : List UInt8) (pc : ℕ) (sc : Scope (EvmCtx σ)) :
    Option (ExecResult (EvmCtx σ)) :=
  let s := sc.ctx.state
  if host.readOnly s then some (.halt [] .errWriteProtection)
  else
    match sc.stack with
    | value :: offset :: size :: stack =>
      (sc.mem.getCopy (toInt64 (offset.toNat % u64)) (toInt64 (size.toNat % u64))).map fun input =>
        let rules := host.chainRules s
        let gas := if rules.isTangerineWhistle then sc.gas - sc.gas / 64 else sc.gas
        let (res, addr, returnGas, suberr, s) := host.create s input gas value none
        let stackvalue : BitVec 256 :=
          if rules.isHomestead ∧ suberr = some .errCodeStoreOutOfGas then 0
          else if suberr ≠ none ∧ suberr ≠ some .errCodeStoreOutOfGas then 0
          else host.toWord addr
        let returnData := if suberr = some .errExecutionReverted then res else []
        .next pc { sc.withState (host.setReturnData s returnData) with
          stack := stackvalue :: stack, gas := (sc.gas - gas + returnGas) % u64 }
    | _ => none

/-- `opCreate2`: as `opCreate` with a salt, always keeping a 64th of the gas, and zero on every error. -/
def opCreate2 (host : Host σ Addr) (_ : List UInt8) (pc : ℕ) (sc : Scope (EvmCtx σ)) :
    Option (ExecResult (EvmCtx σ)) :=
  let s := sc.ctx.state
  if host.readOnly s then some (.halt [] .errWriteProtection)
  else
    match sc.stack with
    | endowment :: offset :: size :: salt :: stack =>
      (sc.mem.getCopy (toInt64 (offset.toNat % u64)) (toInt64 (size.toNat % u64))).map fun input =>
        let gas := sc.gas - sc.gas / 64
        let (res, addr, returnGas, suberr, s) := host.create s input gas endowment (some salt)
        let stackValue : BitVec 256 := if suberr ≠ none then 0 else host.toWord addr
        let returnData := if suberr = some .errExecutionReverted then res else []
        .next pc { sc.withState (host.setReturnData s returnData) with
          stack := stackValue :: stack, gas := (sc.gas - gas + returnGas) % u64 }
    | _ => none

theorem opCall_keepsMemorySize (host : Host σ Addr) : KeepsMemorySize (opCall host) := by
  intro code pc sc pc' sc' h
  unfold opCall at h
  split at h
  · obtain ⟨args, -, h⟩ := Option.bind_eq_some_iff.1 h
    split at h
    · cases h
    · exact callReturn_keepsMemorySize h
  · cases h

theorem opCallCode_keepsMemorySize (host : Host σ Addr) : KeepsMemorySize (opCallCode host) := by
  intro code pc sc pc' sc' h
  unfold opCallCode at h
  split at h
  · obtain ⟨args, -, h⟩ := Option.bind_eq_some_iff.1 h
    exact callReturn_keepsMemorySize h
  · cases h

theorem callWithoutValue_keepsMemorySize (host : Host σ Addr) (typ : OpCode) :
    KeepsMemorySize (callWithoutValue host typ) := by
  intro code pc sc pc' sc' h
  unfold callWithoutValue at h
  split at h
  · obtain ⟨args, -, h⟩ := Option.bind_eq_some_iff.1 h
    exact callReturn_keepsMemorySize h
  · cases h

theorem opCreate_keepsMemorySize (host : Host σ Addr) : KeepsMemorySize (opCreate host) := by
  refine KeepsMemorySize.of_mem fun code pc sc pc' sc' h => ?_
  unfold opCreate at h
  dsimp only at h
  split at h
  · cases h
  · split at h
    · obtain ⟨input, -, hnext⟩ := Option.map_eq_some_iff.1 h
      cases hnext
      rfl
    · cases h

theorem opCreate2_keepsMemorySize (host : Host σ Addr) : KeepsMemorySize (opCreate2 host) := by
  refine KeepsMemorySize.of_mem fun code pc sc pc' sc' h => ?_
  unfold opCreate2 at h
  dsimp only at h
  split at h
  · cases h
  · split at h
    · obtain ⟨input, -, hnext⟩ := Option.map_eq_some_iff.1 h
      cases hnext
      rfl
    · cases h

end AmazeChain.Vm
