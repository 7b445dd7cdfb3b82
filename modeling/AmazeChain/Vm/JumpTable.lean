import AmazeChain.Vm.Environment
import AmazeChain.Vm.StackSafety

/-!
# The jump tables

`jump_table.go` and the activators of `eips.go`: `newFrontierInstructionSet` lists the entry of every opcode of
Frontier, with `opUndefined` in every other slot, and the table of each later fork is the one before with
entries set and the constant or dynamic gas of others changed (`JumpTable.set`, `setConstantGas`,
`setDynamicGas`), up to Prague, whose table is Cancun's, which is Shanghai's.  Each entry carries the `maxStack`
`validateAndFillMaxStack` fills in: no change of a later fork touches what an entry pops or pushes.
`newEVMInterpreter` is the table `NewEVMInterpreter` chooses by the rules of the chain.  `EnableEIP` is
`enableEIP`, and `enableEIPs` applies it to a list of EIPs in turn; the loop of `NewEVMInterpreter` over the
config's `ExtraEips` is left out, as nothing in the node sets them.

Every entry of every table keeps the account of the memory (`KeepsMemoryAccount`): an entry is built by
`stackOperation` without a dynamic gas, or by `mkOperation` with a gas function that prices the expansion at
every size when the entry has a memory size (`Vm.Environment`, the calls of `Vm.Gas`) and leaves the memory when
it has none; and each instruction leaves the size of the memory and its `lastGasCost`.  Setting an entry or its
gas keeps the property, fork after fork, so `Run` over the table `NewEVMInterpreter` chooses charges, in every
frame, `memoryFee` of the word count the memory ends with (`newEVMInterpreter_chargesMemoryFee`).
-/

namespace AmazeChain.Vm

open EVM (VmError OpCode)

variable {S σ Addr : Type}

/-! ### Tables and their changes -/

/-- `JumpTable`: the entry of each opcode. -/
def JumpTable (S : Type) : Type := UInt8 → Operation S

/-- `jt[op] = operation`. -/
def JumpTable.set (jt : JumpTable S) (op : UInt8) (operation : Operation S) : JumpTable S :=
  fun o => if o = op then operation else jt o

/-- `jt[op].constantGas = constantGas`. -/
def JumpTable.setConstantGas (jt : JumpTable S) (op : UInt8) (constantGas : ℕ) : JumpTable S :=
  jt.set op { jt op with constantGas }

/-- `jt[op].dynamicGas = f`. -/
def JumpTable.setDynamicGas (jt : JumpTable S) (op : UInt8) (f : GasFunc S) : JumpTable S :=
  jt.set op { jt op with dynamicGas := some f }

@[simp] theorem JumpTable.set_apply (jt : JumpTable S) (op : UInt8) (operation : Operation S) (o : UInt8) :
    jt.set op operation o = if o = op then operation else jt o := rfl

@[simp] theorem JumpTable.setConstantGas_memorySize (jt : JumpTable S) (op : UInt8) (constantGas : ℕ) (o : UInt8) :
    (jt.setConstantGas op constantGas o).memorySize = (jt o).memorySize := by
  unfold JumpTable.setConstantGas
  rw [JumpTable.set_apply]
  split
  · next h => rw [h]
  · rfl

@[simp] theorem JumpTable.setDynamicGas_memorySize (jt : JumpTable S) (op : UInt8) (f : GasFunc S) (o : UInt8) :
    (jt.setDynamicGas op f o).memorySize = (jt o).memorySize := by
  unfold JumpTable.setDynamicGas
  rw [JumpTable.set_apply]
  split
  · next h => rw [h]
  · rfl

/-- An entry of the jump tables, with the `maxStack` `validateAndFillMaxStack` fills in from the items it pops and
pushes. -/
def mkOperation (execute : List UInt8 → ℕ → Scope S → Option (ExecResult S)) (constantGas : ℕ)
    (dynamicGas : Option (GasFunc S)) (numPop numPush : ℕ) (memorySize : Option (List (BitVec 256) → ℕ × Bool)) :
    Operation S :=
  { execute, constantGas, dynamicGas, numPop, maxStack := maxStack numPop numPush, memorySize }

/-- Every entry of the table keeps the account of the memory. -/
def JumpTable.KeepsMemoryAccount (jt : JumpTable S) : Prop := ∀ op, (jt op).KeepsMemoryAccount

theorem JumpTable.KeepsMemoryAccount.set {jt : JumpTable S} (hjt : jt.KeepsMemoryAccount) (op : UInt8)
    {operation : Operation S} (h : operation.KeepsMemoryAccount) : (jt.set op operation).KeepsMemoryAccount := by
  intro o
  unfold JumpTable.set
  split
  · exact h
  · exact hjt o

theorem JumpTable.KeepsMemoryAccount.setConstantGas {jt : JumpTable S} (hjt : jt.KeepsMemoryAccount) (op : UInt8)
    (constantGas : ℕ) : (jt.setConstantGas op constantGas).KeepsMemoryAccount :=
  -- the account does not read the constant gas
  hjt.set op ⟨(hjt op).charges, (hjt op).execute⟩

/-- A new gas function keeps the account when it prices the expansion at every size `Run` may give it. -/
theorem JumpTable.KeepsMemoryAccount.setDynamicGas {jt : JumpTable S} (hjt : jt.KeepsMemoryAccount) (op : UInt8)
    {f : GasFunc S} (hf : ∀ n, ((jt op).memorySize.isSome ∨ n = 0) → ChargesExpansionAt f n) :
    (jt.setDynamicGas op f).KeepsMemoryAccount := by
  refine hjt.set op ⟨fun g hg n hn => ?_, (hjt op).execute⟩
  cases hg
  exact hf n hn

/-! ### Entries that keep the account -/

theorem StackShaped.keepsMemorySize {execute : List UInt8 → ℕ → Scope S → Option (ExecResult S)} {numPop numPush : ℕ}
    (h : StackShaped execute numPop numPush) : KeepsMemorySize execute :=
  .of_mem h.mem

theorem stackOperation_keepsMemoryAccount {execute : List UInt8 → ℕ → Scope S → Option (ExecResult S)}
    (h : KeepsMemorySize execute) (constantGas numPop numPush : ℕ) :
    (stackOperation execute constantGas numPop numPush).KeepsMemoryAccount where
  charges f hf := by cases hf
  execute := h

/-- An entry with a memory size, whose gas function prices the expansion at every size. -/
theorem mkOperation_memory_keepsMemoryAccount {execute : List UInt8 → ℕ → Scope S → Option (ExecResult S)}
    {f : GasFunc S} (h : KeepsMemorySize execute) (hf : ∀ n, ChargesExpansionAt f n)
    (constantGas numPop numPush : ℕ) (memorySize : List (BitVec 256) → ℕ × Bool) :
    (mkOperation execute constantGas (some f) numPop numPush (some memorySize)).KeepsMemoryAccount where
  charges g hg n _ := by
    cases hg
    exact hf n
  execute := h

/-- An entry without a memory size, whose gas function leaves the memory: `Run` asks it for the size zero. -/
theorem mkOperation_gas_keepsMemoryAccount {execute : List UInt8 → ℕ → Scope S → Option (ExecResult S)}
    {f : GasFunc S} (h : KeepsMemorySize execute) (hf : LeavesMemory f) (constantGas numPop numPush : ℕ) :
    (mkOperation execute constantGas (some f) numPop numPush none).KeepsMemoryAccount where
  charges g hg n hn := by
    cases hg
    obtain rfl : n = 0 := hn.resolve_left (by simp [mkOperation])
    exact hf.charges_zero
  execute := h

theorem gasExp_leavesMemory (expByte : ℕ) : LeavesMemory (gasExp (S := S) expByte) := by
  intro sc n c sc' h
  rw [gasExp_eq_ok h]

/-! ### Frontier -/

/-- `GasSlowStep`. -/
def gasSlowStep : ℕ := 10

/-- `GasExtStep`. -/
def gasExtStep : ℕ := 20

/-- `params.Keccak256Gas`. -/
def keccak256Gas : ℕ := 30

/-- `params.CreateGas`. -/
def createGas : ℕ := 32000

/-- `params.Create2Gas`. -/
def create2Gas : ℕ := 32000

/-- `params.CallGasFrontier`. -/
def callGasFrontier : ℕ := 40

/-- `params.CallGasEIP150`. -/
def callGasEIP150 : ℕ := 700

/-- `params.BalanceGasFrontier`. -/
def balanceGasFrontier : ℕ := 20

/-- `params.ExtcodeSizeGasFrontier`. -/
def extcodeSizeGasFrontier : ℕ := 20

/-- `params.SloadGasFrontier`. -/
def sloadGasFrontier : ℕ := 50

/-- `params.ExtcodeCopyBaseFrontier`. -/
def extcodeCopyBaseFrontier : ℕ := 20

/-- The entry of `LOG`n: two items and `n` topics. -/
def logOperation (host : Host σ Addr) (n : ℕ) : Operation (EvmCtx σ) :=
  mkOperation (makeLog host n) 0 (some (makeGasLog n)) (n + 2) 0 (some memoryLog)

/-- `newFrontierInstructionSet`. -/
def newFrontierInstructionSet (host : Host σ Addr) : JumpTable (EvmCtx σ) := fun op =>
  match op with
  | 0x00 => stopOperation
  | 0x01 => stackOperation opAdd gasFastestStep 2 1
  | 0x02 => stackOperation opMul gasFastStep 2 1
  | 0x03 => stackOperation opSub gasFastestStep 2 1
  | 0x04 => stackOperation opDiv gasFastStep 2 1
  | 0x05 => stackOperation opSdiv gasFastStep 2 1
  | 0x06 => stackOperation opMod gasFastStep 2 1
  | 0x07 => stackOperation opSmod gasFastStep 2 1
  | 0x08 => stackOperation opAddmod gasMidStep 3 1
  | 0x09 => stackOperation opMulmod gasMidStep 3 1
  | 0x0a => mkOperation opExp 0 (some gasExpFrontier) 2 1 none
  | 0x0b => stackOperation opSignExtend gasFastStep 2 1
  | 0x10 => stackOperation opLt gasFastestStep 2 1
  | 0x11 => stackOperation opGt gasFastestStep 2 1
  | 0x12 => stackOperation opSlt gasFastestStep 2 1
  | 0x13 => stackOperation opSgt gasFastestStep 2 1
  | 0x14 => stackOperation opEq gasFastestStep 2 1
  | 0x15 => stackOperation opIszero gasFastestStep 1 1
  | 0x16 => stackOperation opAnd gasFastestStep 2 1
  | 0x17 => stackOperation opOr gasFastestStep 2 1
  | 0x18 => stackOperation opXor gasFastestStep 2 1
  | 0x19 => stackOperation opNot gasFastestStep 1 1
  | 0x1a => stackOperation opByte gasFastestStep 2 1
  | 0x20 => mkOperation (opKeccak256 host) keccak256Gas (some gasKeccak256) 2 1 (some memoryKeccak256)
  | 0x30 => stackOperation (opAddress host) gasQuickStep 0 1
  | 0x31 => stackOperation (opBalance host) balanceGasFrontier 1 1
  | 0x32 => stackOperation (opOrigin host) gasQuickStep 0 1
  | 0x33 => stackOperation (opCaller host) gasQuickStep 0 1
  | 0x34 => stackOperation (opCallValue host) gasQuickStep 0 1
  | 0x35 => stackOperation (opCallDataLoad host) gasFastestStep 1 1
  | 0x36 => stackOperation (opCallDataSize host) gasQuickStep 0 1
  | 0x37 => mkOperation (opCallDataCopy host) gasFastestStep (some gasCallDataCopy) 3 0 (some memoryCallDataCopy)
  | 0x38 => stackOperation opCodeSize gasQuickStep 0 1
  | 0x39 => mkOperation opCodeCopy gasFastestStep (some gasCodeCopy) 3 0 (some memoryCodeCopy)
  | 0x3a => stackOperation (opGasprice host) gasQuickStep 0 1
  | 0x3b => stackOperation (opExtCodeSize host) extcodeSizeGasFrontier 1 1
  | 0x3c =>
    mkOperation (opExtCodeCopy host) extcodeCopyBaseFrontier (some gasExtCodeCopy) 4 0 (some memoryExtCodeCopy)
  | 0x40 => stackOperation (opBlockhash host) gasExtStep 1 1
  | 0x41 => stackOperation (opCoinbase host) gasQuickStep 0 1
  | 0x42 => stackOperation (opTimestamp host) gasQuickStep 0 1
  | 0x43 => stackOperation (opNumber host) gasQuickStep 0 1
  | 0x44 => stackOperation (opDifficulty host) gasQuickStep 0 1
  | 0x45 => stackOperation (opGasLimit host) gasQuickStep 0 1
  | 0x50 => stackOperation opPop gasQuickStep 1 0
  | 0x51 => mloadOperation
  | 0x52 => mstoreOperation
  | 0x53 => mstore8Operation
  | 0x54 => stackOperation (opSload host) sloadGasFrontier 1 1
  | 0x55 => mkOperation host.opSstore 0 (some host.gasSStore) 2 0 none
  | 0x56 => stackOperation (opJump host) gasMidStep 1 0
  | 0x57 => stackOperation (opJumpi host) gasSlowStep 2 0
  | 0x58 => stackOperation opPc gasQuickStep 0 1
  | 0x59 => stackOperation opMsize gasQuickStep 0 1
  | 0x5a => stackOperation opGas gasQuickStep 0 1
  | 0x5b => stackOperation opJumpdest jumpdestGas 0 0
  | 0x60 => push1Operation
  | 0xf0 => mkOperation (opCreate host) createGas (some gasCreate) 3 1 (some memoryCreate)
  | 0xf1 => mkOperation (opCall host) callGasFrontier (some (gasCall host.toStateOps)) 7 1 (some memoryCall)
  | 0xf2 => mkOperation (opCallCode host) callGasFrontier (some gasCallCode) 7 1 (some memoryCall)
  | 0xf3 => mkOperation opReturn 0 (some gasReturn) 2 0 (some memoryReturn)
  | 0xff => mkOperation (opSelfdestruct host) 0 (some (gasSelfdestruct host)) 1 0 none
  | op =>
    if 0x61 ≤ op ∧ op ≤ 0x7f then pushOperation (op.toNat - 0x5f)
    else if 0x80 ≤ op ∧ op ≤ 0x8f then dupOperation (op.toNat - 0x7f)
    else if 0x90 ≤ op ∧ op ≤ 0x9f then swapOperation (op.toNat - 0x8f)
    else if 0xa0 ≤ op ∧ op ≤ 0xa4 then logOperation host (op.toNat - 0xa0)
    -- Fill all unassigned slots with opUndefined.
    else undefinedOperation

theorem logOperation_keepsMemoryAccount (host : Host σ Addr) (n : ℕ) : (logOperation host n).KeepsMemoryAccount :=
  mkOperation_memory_keepsMemoryAccount (makeLog_keepsMemorySize host n) (makeGasLog_charges n) _ _ _ _

theorem makeDup_keepsMemorySize (size : ℕ) : KeepsMemorySize (makeDup (S := S) size) := by
  refine KeepsMemorySize.of_mem fun code pc sc pc' sc' h => ?_
  unfold makeDup at h
  obtain ⟨stack, -, hnext⟩ := Option.map_eq_some_iff.1 h
  cases hnext
  rfl

/-- Every entry of Frontier keeps the account. -/
theorem newFrontierInstructionSet_keepsMemoryAccount (host : Host σ Addr) :
    (newFrontierInstructionSet host).KeepsMemoryAccount := by
  intro op
  unfold newFrontierInstructionSet
  -- one goal per entry, closed by the lemma of its kind of entry applied to that of its instruction
  split
  all_goals first
    -- the entries of `Vm.Interpreter` and `Vm.Instructions` with their own lemmas
    | exact stopOperation_keepsMemoryAccount
    | exact mloadOperation_keepsMemoryAccount
    | exact mstoreOperation_keepsMemoryAccount
    | exact mstore8Operation_keepsMemoryAccount
    | exact push1Operation_keepsMemoryAccount
    -- without a dynamic gas, one lemma per family of instructions
    | exact stackOperation_keepsMemoryAccount (binaryOp_stackShaped _).keepsMemorySize _ _ _
    | exact stackOperation_keepsMemoryAccount (pushOp_stackShaped _).keepsMemorySize _ _ _
    | exact stackOperation_keepsMemoryAccount (peekOp_keepsMemorySize _) _ _ _
    | exact stackOperation_keepsMemoryAccount (unaryOp_stackShaped _).keepsMemorySize _ _ _
    | exact stackOperation_keepsMemoryAccount (ternaryOp_stackShaped _).keepsMemorySize _ _ _
    | exact stackOperation_keepsMemoryAccount opPop_stackShaped.keepsMemorySize _ _ _
    | exact stackOperation_keepsMemoryAccount opJumpdest_stackShaped.keepsMemorySize _ _ _
    | exact stackOperation_keepsMemoryAccount opCodeSize_keepsMemorySize _ _ _
    | exact stackOperation_keepsMemoryAccount (opCallDataLoad_keepsMemorySize host) _ _ _
    | exact stackOperation_keepsMemoryAccount (opDifficulty_keepsMemorySize host) _ _ _
    | exact stackOperation_keepsMemoryAccount (opJump_keepsMemorySize host) _ _ _
    | exact stackOperation_keepsMemoryAccount (opJumpi_keepsMemorySize host) _ _ _
    -- with a memory size: the gas prices the expansion at every size
    | exact mkOperation_memory_keepsMemoryAccount (opKeccak256_keepsMemorySize host)
        (memoryWordGas_charges _ _) _ _ _ _
    | exact mkOperation_memory_keepsMemoryAccount (opCallDataCopy_keepsMemorySize host)
        (memoryWordGas_charges _ _) _ _ _ _
    | exact mkOperation_memory_keepsMemoryAccount opCodeCopy_keepsMemorySize (memoryWordGas_charges _ _) _ _ _ _
    | exact mkOperation_memory_keepsMemoryAccount (opExtCodeCopy_keepsMemorySize host)
        (memoryWordGas_charges _ _) _ _ _ _
    | exact mkOperation_memory_keepsMemoryAccount (opCreate_keepsMemorySize host) pureMemoryGascost_charges _ _ _ _
    | exact mkOperation_memory_keepsMemoryAccount (opCall_keepsMemorySize host)
        (callVariantGas_charges _) _ _ _ _
    | exact mkOperation_memory_keepsMemoryAccount (opCallCode_keepsMemorySize host)
        (callVariantGas_charges _) _ _ _ _
    | exact mkOperation_memory_keepsMemoryAccount opReturn_keepsMemorySize pureMemoryGascost_charges _ _ _ _
    -- with a gas function and no memory size: the gas leaves the memory
    | exact mkOperation_gas_keepsMemoryAccount (binaryOp_stackShaped _).keepsMemorySize (gasExp_leavesMemory _) _ _ _
    | exact mkOperation_gas_keepsMemoryAccount (Host.opSstore_keepsMemorySize host)
        (sstoreGasFunc_leavesMemory host _) _ _ _
    | exact mkOperation_gas_keepsMemoryAccount (opSelfdestruct_keepsMemorySize host)
        (gasSelfdestruct_leavesMemory host) _ _ _
    -- `PUSH2` to `PUSH32`, `DUP1` to `DUP16`, `SWAP1` to `SWAP16`, `LOG0` to `LOG4` and the unassigned slots
    | split_ifs
      · exact stackOperation_keepsMemoryAccount (makePush_stackShaped _ _).keepsMemorySize _ _ _
      · exact stackOperation_keepsMemoryAccount (makeDup_keepsMemorySize _) _ _ _
      · exact stackOperation_keepsMemoryAccount (makeSwap_stackShaped _).keepsMemorySize _ _ _
      · exact logOperation_keepsMemoryAccount host _
      · exact undefinedOperation_keepsMemoryAccount

/-! ### The later forks -/

-- the opcodes the later forks set or change (`opcodes.go`)
def EXP : UInt8 := 0x0a
def SHL : UInt8 := 0x1b
def SHR : UInt8 := 0x1c
def SAR : UInt8 := 0x1d
def BALANCE : UInt8 := 0x31
def EXTCODESIZE : UInt8 := 0x3b
def EXTCODECOPY : UInt8 := 0x3c
def RETURNDATASIZE : UInt8 := 0x3d
def RETURNDATACOPY : UInt8 := 0x3e
def EXTCODEHASH : UInt8 := 0x3f
def CHAINID : UInt8 := 0x46
def SELFBALANCE : UInt8 := 0x47
def BASEFEE : UInt8 := 0x48
def SLOAD : UInt8 := 0x54
def SSTORE : UInt8 := 0x55
def PUSH0 : UInt8 := 0x5f
def CREATE : UInt8 := 0xf0
def CALL : UInt8 := 0xf1
def CALLCODE : UInt8 := 0xf2
def DELEGATECALL : UInt8 := 0xf4
def CREATE2 : UInt8 := 0xf5
def STATICCALL : UInt8 := 0xfa
def REVERT : UInt8 := 0xfd
def SELFDESTRUCT : UInt8 := 0xff

/-- `params.BalanceGasEIP150`. -/
def balanceGasEIP150 : ℕ := 400

/-- `params.BalanceGasEIP1884`. -/
def balanceGasEIP1884 : ℕ := 700

/-- `params.ExtcodeSizeGasEIP150`. -/
def extcodeSizeGasEIP150 : ℕ := 700

/-- `params.SloadGasEIP150`. -/
def sloadGasEIP150 : ℕ := 200

/-- `params.SloadGasEIP1884`. -/
def sloadGasEIP1884 : ℕ := 800

/-- `params.SloadGasEIP2200`. -/
def sloadGasEIP2200 : ℕ := 800

/-- `params.ExtcodeCopyBaseEIP150`. -/
def extcodeCopyBaseEIP150 : ℕ := 700

/-- `params.ExtcodeHashGasConstantinople`. -/
def extcodeHashGasConstantinople : ℕ := 400

/-- `params.ExtcodeHashGasEIP1884`. -/
def extcodeHashGasEIP1884 : ℕ := 700

def newHomesteadInstructionSet (host : Host σ Addr) : JumpTable (EvmCtx σ) :=
  (newFrontierInstructionSet host).set DELEGATECALL
    (mkOperation (opDelegateCall host) callGasFrontier (some gasDelegateCall) 6 1 (some memoryDelegateCall))

/-- EIP 150 a.k.a Tangerine Whistle. -/
def newTangerineWhistleInstructionSet (host : Host σ Addr) : JumpTable (EvmCtx σ) :=
  newHomesteadInstructionSet host
    |>.setConstantGas BALANCE balanceGasEIP150
    |>.setConstantGas EXTCODESIZE extcodeSizeGasEIP150
    |>.setConstantGas SLOAD sloadGasEIP150
    |>.setConstantGas EXTCODECOPY extcodeCopyBaseEIP150
    |>.setConstantGas CALL callGasEIP150
    |>.setConstantGas CALLCODE callGasEIP150
    |>.setConstantGas DELEGATECALL callGasEIP150

/-- EIP 158 a.k.a Spurious Dragon. -/
def newSpuriousDragonInstructionSet (host : Host σ Addr) : JumpTable (EvmCtx σ) :=
  (newTangerineWhistleInstructionSet host).setDynamicGas EXP gasExpEIP160

def newByzantiumInstructionSet (host : Host σ Addr) : JumpTable (EvmCtx σ) :=
  newSpuriousDragonInstructionSet host
    |>.set STATICCALL
      (mkOperation (opStaticCall host) callGasEIP150 (some gasStaticCall) 6 1 (some memoryStaticCall))
    |>.set RETURNDATASIZE (stackOperation (opReturnDataSize host) gasQuickStep 0 1)
    |>.set RETURNDATACOPY
      (mkOperation (opReturnDataCopy host) gasFastestStep (some gasReturnDataCopy) 3 0 (some memoryReturnDataCopy))
    |>.set REVERT (mkOperation opRevert 0 (some gasRevert) 2 0 (some memoryRevert))

def newConstantinopleInstructionSet (host : Host σ Addr) : JumpTable (EvmCtx σ) :=
  newByzantiumInstructionSet host
    |>.set SHL (stackOperation opSHL gasFastestStep 2 1)
    |>.set SHR (stackOperation opSHR gasFastestStep 2 1)
    |>.set SAR (stackOperation opSAR gasFastestStep 2 1)
    |>.set EXTCODEHASH (stackOperation (opExtCodeHash host) extcodeHashGasConstantinople 1 1)
    |>.set CREATE2 (mkOperation (opCreate2 host) create2Gas (some gasCreate2) 4 1 (some memoryCreate2))

/-- `enable1344`: `CHAINID`. -/
def enable1344 (host : Host σ Addr) (jt : JumpTable (EvmCtx σ)) : JumpTable (EvmCtx σ) :=
  jt.set CHAINID (stackOperation (opChainID host) gasQuickStep 0 1)

/-- `enable1884`: the reader opcodes repriced, and `SELFBALANCE`. -/
def enable1884 (host : Host σ Addr) (jt : JumpTable (EvmCtx σ)) : JumpTable (EvmCtx σ) :=
  jt
    |>.setConstantGas SLOAD sloadGasEIP1884
    |>.setConstantGas BALANCE balanceGasEIP1884
    |>.setConstantGas EXTCODEHASH extcodeHashGasEIP1884
    |>.set SELFBALANCE (stackOperation (opSelfBalance host) gasFastStep 0 1)

/-- `enable2200`: net metered `SSTORE`. -/
def enable2200 (host : Host σ Addr) (jt : JumpTable (EvmCtx σ)) : JumpTable (EvmCtx σ) :=
  jt
    |>.setConstantGas SLOAD sloadGasEIP2200
    |>.setDynamicGas SSTORE host.gasSStoreEIP2200

/-- `enable2929`: the access lists of the accounts and slots the state instructions read. -/
def enable2929 (host : Host σ Addr) (jt : JumpTable (EvmCtx σ)) : JumpTable (EvmCtx σ) :=
  jt
    |>.setDynamicGas SSTORE host.gasSStoreEIP2929
    |>.setConstantGas SLOAD 0
    |>.setDynamicGas SLOAD (gasSLoadEIP2929 host)
    |>.setConstantGas EXTCODECOPY warmStorageReadCostEIP2929
    |>.setDynamicGas EXTCODECOPY (gasExtCodeCopyEIP2929 host.toStateOps)
    |>.setConstantGas EXTCODESIZE warmStorageReadCostEIP2929
    |>.setDynamicGas EXTCODESIZE (gasEip2929AccountCheck host.toStateOps)
    |>.setConstantGas EXTCODEHASH warmStorageReadCostEIP2929
    |>.setDynamicGas EXTCODEHASH (gasEip2929AccountCheck host.toStateOps)
    |>.setConstantGas BALANCE warmStorageReadCostEIP2929
    |>.setDynamicGas BALANCE (gasEip2929AccountCheck host.toStateOps)
    |>.setConstantGas CALL warmStorageReadCostEIP2929
    |>.setDynamicGas CALL (makeCallVariantGasCallEIP2929 host.toStateOps (gasCall host.toStateOps))
    |>.setConstantGas CALLCODE warmStorageReadCostEIP2929
    |>.setDynamicGas CALLCODE (makeCallVariantGasCallEIP2929 host.toStateOps gasCallCode)
    |>.setConstantGas STATICCALL warmStorageReadCostEIP2929
    |>.setDynamicGas STATICCALL (makeCallVariantGasCallEIP2929 host.toStateOps gasStaticCall)
    |>.setConstantGas DELEGATECALL warmStorageReadCostEIP2929
    |>.setDynamicGas DELEGATECALL (makeCallVariantGasCallEIP2929 host.toStateOps gasDelegateCall)
    |>.setConstantGas SELFDESTRUCT selfdestructGasEIP150
    |>.setDynamicGas SELFDESTRUCT (gasSelfdestructEIP2929 host)

/-- `enable3529`: the refunds of `SSTORE` reduced, none for `SELFDESTRUCT`. -/
def enable3529 (host : Host σ Addr) (jt : JumpTable (EvmCtx σ)) : JumpTable (EvmCtx σ) :=
  jt
    |>.setDynamicGas SSTORE host.gasSStoreEIP3529
    |>.setDynamicGas SELFDESTRUCT (gasSelfdestructEIP3529 host)

/-- `enable3198`: `BASEFEE`. -/
def enable3198 (host : Host σ Addr) (jt : JumpTable (EvmCtx σ)) : JumpTable (EvmCtx σ) :=
  jt.set BASEFEE (stackOperation (opBaseFee host) gasQuickStep 0 1)

/-- `enable3855`: `PUSH0`. -/
def enable3855 (jt : JumpTable (EvmCtx σ)) : JumpTable (EvmCtx σ) :=
  jt.set PUSH0 (stackOperation opPush0 gasQuickStep 0 1)

/-- `enable3860`: the init code of the creations metered. -/
def enable3860 (jt : JumpTable (EvmCtx σ)) : JumpTable (EvmCtx σ) :=
  jt
    |>.setDynamicGas CREATE gasCreateEip3860
    |>.setDynamicGas CREATE2 gasCreate2Eip3860

def newIstanbulInstructionSet (host : Host σ Addr) : JumpTable (EvmCtx σ) :=
  enable2200 host (enable1884 host (enable1344 host (newConstantinopleInstructionSet host)))

def newBerlinInstructionSet (host : Host σ Addr) : JumpTable (EvmCtx σ) :=
  enable2929 host (newIstanbulInstructionSet host)

def newLondonInstructionSet (host : Host σ Addr) : JumpTable (EvmCtx σ) :=
  enable3198 host (enable3529 host (newBerlinInstructionSet host))

def newShanghaiInstructionSet (host : Host σ Addr) : JumpTable (EvmCtx σ) :=
  enable3860 (enable3855 (newLondonInstructionSet host))

def newCancunInstructionSet (host : Host σ Addr) : JumpTable (EvmCtx σ) := newShanghaiInstructionSet host

def newPragueInstructionSet (host : Host σ Addr) : JumpTable (EvmCtx σ) := newCancunInstructionSet host

/-- The jump table `NewEVMInterpreter` chooses: that of the latest fork the rules of the chain enable. -/
def newEVMInterpreter (host : Host σ Addr) (rules : ForkRules) : JumpTable (EvmCtx σ) :=
  if rules.isPrague then newPragueInstructionSet host
  else if rules.isCancun then newCancunInstructionSet host
  else if rules.isShanghai then newShanghaiInstructionSet host
  else if rules.isLondon then newLondonInstructionSet host
  else if rules.isBerlin then newBerlinInstructionSet host
  else if rules.isIstanbul then newIstanbulInstructionSet host
  else if rules.isConstantinople then newConstantinopleInstructionSet host
  else if rules.isByzantium then newByzantiumInstructionSet host
  else if rules.isSpuriousDragon then newSpuriousDragonInstructionSet host
  else if rules.isTangerineWhistle then newTangerineWhistleInstructionSet host
  else if rules.isHomestead then newHomesteadInstructionSet host
  else newFrontierInstructionSet host

/-- What holds of the table of every fork holds of the one `NewEVMInterpreter` chooses, whatever the rules. -/
theorem newEVMInterpreter_of_forks (P : JumpTable (EvmCtx σ) → Prop) (host : Host σ Addr) (rules : ForkRules)
    (hfrontier : P (newFrontierInstructionSet host)) (hhomestead : P (newHomesteadInstructionSet host))
    (htangerine : P (newTangerineWhistleInstructionSet host))
    (hspurious : P (newSpuriousDragonInstructionSet host)) (hbyzantium : P (newByzantiumInstructionSet host))
    (hconstantinople : P (newConstantinopleInstructionSet host)) (histanbul : P (newIstanbulInstructionSet host))
    (hberlin : P (newBerlinInstructionSet host)) (hlondon : P (newLondonInstructionSet host))
    (hshanghai : P (newShanghaiInstructionSet host)) : P (newEVMInterpreter host rules) := by
  unfold newEVMInterpreter
  -- one branch per fork, from the latest down; Prague's and Cancun's tables are Shanghai's
  refine iteInduction (fun _ => hshanghai) fun _ => ?_
  refine iteInduction (fun _ => hshanghai) fun _ => ?_
  refine iteInduction (fun _ => hshanghai) fun _ => ?_
  refine iteInduction (fun _ => hlondon) fun _ => ?_
  refine iteInduction (fun _ => hberlin) fun _ => ?_
  refine iteInduction (fun _ => histanbul) fun _ => ?_
  refine iteInduction (fun _ => hconstantinople) fun _ => ?_
  refine iteInduction (fun _ => hbyzantium) fun _ => ?_
  refine iteInduction (fun _ => hspurious) fun _ => ?_
  refine iteInduction (fun _ => htangerine) fun _ => ?_
  exact iteInduction (fun _ => hhomestead) fun _ => hfrontier

/-- `activators`: the activator of each EIP that `EnableEIP` knows. -/
def activators (host : Host σ Addr) (eipNum : ℤ) : Option (JumpTable (EvmCtx σ) → JumpTable (EvmCtx σ)) :=
  if eipNum = 3855 then some enable3855
  else if eipNum = 3860 then some enable3860
  else if eipNum = 3529 then some (enable3529 host)
  else if eipNum = 3198 then some (enable3198 host)
  else if eipNum = 2929 then some (enable2929 host)
  else if eipNum = 2200 then some (enable2200 host)
  else if eipNum = 1884 then some (enable1884 host)
  else if eipNum = 1344 then some (enable1344 host)
  else none

/-- `EnableEIP`: the activator of the EIP applied to the table, an error for an EIP it does not know; the
`validateAndFillMaxStack` after it changes nothing here, as every entry carries its `maxStack`. -/
def enableEIP (host : Host σ Addr) (eipNum : ℤ) (jt : JumpTable (EvmCtx σ)) : Except String (JumpTable (EvmCtx σ)) :=
  match activators host eipNum with
  | some enablerFn => .ok (enablerFn jt)
  | none => .error ("undefined eip " ++ toString eipNum)

/-- `EnableEIP` of each EIP of a list in turn, one it rejects leaving the table as it was. -/
def enableEIPs (host : Host σ Addr) (eips : List ℤ) (jt : JumpTable (EvmCtx σ)) : JumpTable (EvmCtx σ) :=
  eips.foldl (fun jt eipNum =>
    match enableEIP host eipNum jt with
    | .ok jt' => jt'
    | .error _ => jt) jt

/-! ### Every table keeps the account -/

/-- A gas function that leaves the memory may price an entry without a memory size. -/
theorem JumpTable.KeepsMemoryAccount.setDynamicGas_leaves {jt : JumpTable S} (hjt : jt.KeepsMemoryAccount)
    (op : UInt8) (hnone : (jt op).memorySize = none) {f : GasFunc S} (hf : LeavesMemory f) :
    (jt.setDynamicGas op f).KeepsMemoryAccount :=
  hjt.setDynamicGas op fun n hn => by
    obtain rfl : n = 0 := hn.resolve_left (by simp [hnone])
    exact hf.charges_zero

/-- A gas function that prices the expansion at every size may price any entry. -/
theorem JumpTable.KeepsMemoryAccount.setDynamicGas_charges {jt : JumpTable S} (hjt : jt.KeepsMemoryAccount)
    (op : UInt8) {f : GasFunc S} (hf : ∀ n, ChargesExpansionAt f n) : (jt.setDynamicGas op f).KeepsMemoryAccount :=
  hjt.setDynamicGas op fun n _ => hf n

section Forks

variable (host : Host σ Addr)

theorem newHomesteadInstructionSet_keepsMemoryAccount : (newHomesteadInstructionSet host).KeepsMemoryAccount :=
  (newFrontierInstructionSet_keepsMemoryAccount host).set _
    (mkOperation_memory_keepsMemoryAccount (callWithoutValue_keepsMemorySize host _)
      (callVariantGas_charges _) _ _ _ _)

theorem newTangerineWhistleInstructionSet_keepsMemoryAccount :
    (newTangerineWhistleInstructionSet host).KeepsMemoryAccount :=
  newHomesteadInstructionSet_keepsMemoryAccount host
    |>.setConstantGas BALANCE balanceGasEIP150
    |>.setConstantGas EXTCODESIZE extcodeSizeGasEIP150
    |>.setConstantGas SLOAD sloadGasEIP150
    |>.setConstantGas EXTCODECOPY extcodeCopyBaseEIP150
    |>.setConstantGas CALL callGasEIP150
    |>.setConstantGas CALLCODE callGasEIP150
    |>.setConstantGas DELEGATECALL callGasEIP150

theorem newSpuriousDragonInstructionSet_keepsMemoryAccount :
    (newSpuriousDragonInstructionSet host).KeepsMemoryAccount :=
  (newTangerineWhistleInstructionSet_keepsMemoryAccount host).setDynamicGas_leaves EXP rfl (gasExp_leavesMemory _)

theorem newByzantiumInstructionSet_keepsMemoryAccount : (newByzantiumInstructionSet host).KeepsMemoryAccount :=
  newSpuriousDragonInstructionSet_keepsMemoryAccount host
    |>.set _ (mkOperation_memory_keepsMemoryAccount (callWithoutValue_keepsMemorySize host _)
      (callVariantGas_charges _) _ _ _ _)
    |>.set _ (stackOperation_keepsMemoryAccount (pushOp_stackShaped _).keepsMemorySize _ _ _)
    |>.set _ (mkOperation_memory_keepsMemoryAccount (opReturnDataCopy_keepsMemorySize host)
      (memoryWordGas_charges _ _) _ _ _ _)
    |>.set _ (mkOperation_memory_keepsMemoryAccount opRevert_keepsMemorySize pureMemoryGascost_charges _ _ _ _)

theorem newConstantinopleInstructionSet_keepsMemoryAccount :
    (newConstantinopleInstructionSet host).KeepsMemoryAccount :=
  newByzantiumInstructionSet_keepsMemoryAccount host
    |>.set _ (stackOperation_keepsMemoryAccount (binaryOp_stackShaped _).keepsMemorySize _ _ _)
    |>.set _ (stackOperation_keepsMemoryAccount (binaryOp_stackShaped _).keepsMemorySize _ _ _)
    |>.set _ (stackOperation_keepsMemoryAccount (binaryOp_stackShaped _).keepsMemorySize _ _ _)
    |>.set _ (stackOperation_keepsMemoryAccount (peekOp_keepsMemorySize _) _ _ _)
    |>.set _ (mkOperation_memory_keepsMemoryAccount (opCreate2_keepsMemorySize host)
      (memoryWordGas_charges _ _) _ _ _ _)

theorem enable1344_keepsMemoryAccount {jt : JumpTable (EvmCtx σ)} (hjt : jt.KeepsMemoryAccount) :
    (enable1344 host jt).KeepsMemoryAccount :=
  hjt.set _ (stackOperation_keepsMemoryAccount (pushOp_stackShaped _).keepsMemorySize _ _ _)

theorem enable1884_keepsMemoryAccount {jt : JumpTable (EvmCtx σ)} (hjt : jt.KeepsMemoryAccount) :
    (enable1884 host jt).KeepsMemoryAccount :=
  hjt
    |>.setConstantGas SLOAD sloadGasEIP1884
    |>.setConstantGas BALANCE balanceGasEIP1884
    |>.setConstantGas EXTCODEHASH extcodeHashGasEIP1884
    |>.set SELFBALANCE (stackOperation_keepsMemoryAccount (pushOp_stackShaped _).keepsMemorySize _ _ _)

theorem enable2200_keepsMemoryAccount {jt : JumpTable (EvmCtx σ)} (hjt : jt.KeepsMemoryAccount)
    (hsstore : (jt SSTORE).memorySize = none) : (enable2200 host jt).KeepsMemoryAccount :=
  (hjt.setConstantGas SLOAD sloadGasEIP2200).setDynamicGas_leaves SSTORE
    (by simp only [JumpTable.setConstantGas_memorySize, hsstore])
    (sstoreGasFunc_leavesMemory host _)

/-- The access lists price no memory but for `EXTCODECOPY` and the calls, whose new gas functions price it as the
old ones did. -/
theorem enable2929_keepsMemoryAccount {jt : JumpTable (EvmCtx σ)} (hjt : jt.KeepsMemoryAccount)
    (hsstore : (jt SSTORE).memorySize = none) (hsload : (jt SLOAD).memorySize = none)
    (hsize : (jt EXTCODESIZE).memorySize = none) (hhash : (jt EXTCODEHASH).memorySize = none)
    (hbalance : (jt BALANCE).memorySize = none) (hselfdestruct : (jt SELFDESTRUCT).memorySize = none) :
    (enable2929 host jt).KeepsMemoryAccount := by
  have hsstore' := hjt.setDynamicGas_leaves SSTORE hsstore (f := host.gasSStoreEIP2929)
    (sstoreGasFunc_leavesMemory host _)
  have hsload' := (hsstore'.setConstantGas SLOAD 0).setDynamicGas_leaves SLOAD
    (by simp only [JumpTable.setConstantGas_memorySize, JumpTable.setDynamicGas_memorySize, hsload])
    (gasSLoadEIP2929_leavesMemory host)
  have hcopy := (hsload'.setConstantGas EXTCODECOPY warmStorageReadCostEIP2929).setDynamicGas_charges EXTCODECOPY
    (gasExtCodeCopyEIP2929_charges host.toStateOps)
  have hsize' := (hcopy.setConstantGas EXTCODESIZE warmStorageReadCostEIP2929).setDynamicGas_leaves EXTCODESIZE
    (by simp only [JumpTable.setConstantGas_memorySize, JumpTable.setDynamicGas_memorySize, hsize])
    (gasEip2929AccountCheck_leavesMemory host.toStateOps)
  have hhash' := (hsize'.setConstantGas EXTCODEHASH warmStorageReadCostEIP2929).setDynamicGas_leaves EXTCODEHASH
    (by simp only [JumpTable.setConstantGas_memorySize, JumpTable.setDynamicGas_memorySize, hhash])
    (gasEip2929AccountCheck_leavesMemory host.toStateOps)
  have hbalance' := (hhash'.setConstantGas BALANCE warmStorageReadCostEIP2929).setDynamicGas_leaves BALANCE
    (by simp only [JumpTable.setConstantGas_memorySize, JumpTable.setDynamicGas_memorySize, hbalance])
    (gasEip2929AccountCheck_leavesMemory host.toStateOps)
  -- the calls: the wrapper prices the memory as the old calculator, which prices it at every size
  have hcall := (hbalance'.setConstantGas CALL warmStorageReadCostEIP2929).setDynamicGas_charges CALL
    (f := makeCallVariantGasCallEIP2929 host.toStateOps (gasCall host.toStateOps))
    fun _ => makeCallVariantGasCallEIP2929_charges _ (callVariantGas_charges _ _)
  have hcallcode := (hcall.setConstantGas CALLCODE warmStorageReadCostEIP2929).setDynamicGas_charges CALLCODE
    (f := makeCallVariantGasCallEIP2929 host.toStateOps gasCallCode)
    fun _ => makeCallVariantGasCallEIP2929_charges _ (callVariantGas_charges _ _)
  have hstatic := (hcallcode.setConstantGas STATICCALL warmStorageReadCostEIP2929).setDynamicGas_charges STATICCALL
    (f := makeCallVariantGasCallEIP2929 host.toStateOps gasStaticCall)
    fun _ => makeCallVariantGasCallEIP2929_charges _ (callVariantGas_charges _ _)
  have hdelegate := (hstatic.setConstantGas DELEGATECALL warmStorageReadCostEIP2929).setDynamicGas_charges
    DELEGATECALL (f := makeCallVariantGasCallEIP2929 host.toStateOps gasDelegateCall)
    fun _ => makeCallVariantGasCallEIP2929_charges _ (callVariantGas_charges _ _)
  exact (hdelegate.setConstantGas SELFDESTRUCT selfdestructGasEIP150).setDynamicGas_leaves SELFDESTRUCT
    (by simp only [JumpTable.setConstantGas_memorySize, JumpTable.setDynamicGas_memorySize, hselfdestruct])
    (f := gasSelfdestructEIP2929 host) (makeSelfdestructGasFn_leavesMemory host true)

theorem enable3529_keepsMemoryAccount {jt : JumpTable (EvmCtx σ)} (hjt : jt.KeepsMemoryAccount)
    (hsstore : (jt SSTORE).memorySize = none) (hselfdestruct : (jt SELFDESTRUCT).memorySize = none) :
    (enable3529 host jt).KeepsMemoryAccount :=
  hjt
    |>.setDynamicGas_leaves SSTORE hsstore (sstoreGasFunc_leavesMemory host .eip3529)
    |>.setDynamicGas_leaves SELFDESTRUCT (by simp only [JumpTable.setDynamicGas_memorySize, hselfdestruct])
      (makeSelfdestructGasFn_leavesMemory host false)

theorem enable3198_keepsMemoryAccount {jt : JumpTable (EvmCtx σ)} (hjt : jt.KeepsMemoryAccount) :
    (enable3198 host jt).KeepsMemoryAccount :=
  hjt.set _ (stackOperation_keepsMemoryAccount (pushOp_stackShaped _).keepsMemorySize _ _ _)

theorem enable3855_keepsMemoryAccount {jt : JumpTable (EvmCtx σ)} (hjt : jt.KeepsMemoryAccount) :
    (enable3855 jt).KeepsMemoryAccount :=
  hjt.set _ (stackOperation_keepsMemoryAccount (pushOp_stackShaped _).keepsMemorySize _ _ _)

theorem enable3860_keepsMemoryAccount {jt : JumpTable (EvmCtx σ)} (hjt : jt.KeepsMemoryAccount) :
    (enable3860 jt).KeepsMemoryAccount :=
  hjt
    |>.setDynamicGas_charges CREATE (initCodeGas_charges _)
    |>.setDynamicGas_charges CREATE2 (initCodeGas_charges _)

-- The entries the activators reprice with a gas function that leaves the memory have no memory size in the
-- tables they change, which `rfl` reads off the tables.
theorem newIstanbulInstructionSet_keepsMemoryAccount : (newIstanbulInstructionSet host).KeepsMemoryAccount :=
  enable2200_keepsMemoryAccount host
    (enable1884_keepsMemoryAccount host (enable1344_keepsMemoryAccount host
      (newConstantinopleInstructionSet_keepsMemoryAccount host))) rfl

theorem newBerlinInstructionSet_keepsMemoryAccount : (newBerlinInstructionSet host).KeepsMemoryAccount :=
  enable2929_keepsMemoryAccount host (newIstanbulInstructionSet_keepsMemoryAccount host) rfl rfl rfl rfl rfl rfl

theorem newLondonInstructionSet_keepsMemoryAccount : (newLondonInstructionSet host).KeepsMemoryAccount :=
  enable3198_keepsMemoryAccount host
    (enable3529_keepsMemoryAccount host (newBerlinInstructionSet_keepsMemoryAccount host) rfl rfl)

theorem newShanghaiInstructionSet_keepsMemoryAccount : (newShanghaiInstructionSet host).KeepsMemoryAccount :=
  enable3860_keepsMemoryAccount (enable3855_keepsMemoryAccount (newLondonInstructionSet_keepsMemoryAccount host))

/-- Every entry of the table `NewEVMInterpreter` chooses keeps the account, whatever the rules. -/
theorem newEVMInterpreter_keepsMemoryAccount (rules : ForkRules) :
    (newEVMInterpreter host rules).KeepsMemoryAccount :=
  newEVMInterpreter_of_forks JumpTable.KeepsMemoryAccount host rules
    (newFrontierInstructionSet_keepsMemoryAccount host) (newHomesteadInstructionSet_keepsMemoryAccount host)
    (newTangerineWhistleInstructionSet_keepsMemoryAccount host)
    (newSpuriousDragonInstructionSet_keepsMemoryAccount host) (newByzantiumInstructionSet_keepsMemoryAccount host)
    (newConstantinopleInstructionSet_keepsMemoryAccount host) (newIstanbulInstructionSet_keepsMemoryAccount host)
    (newBerlinInstructionSet_keepsMemoryAccount host) (newLondonInstructionSet_keepsMemoryAccount host)
    (newShanghaiInstructionSet_keepsMemoryAccount host)

end Forks

/-! ### The price of the memory in every frame -/

/-- In every run of `Run`'s loop over the jump table `NewEVMInterpreter` chooses, for any rules, code and scope,
from a reset memory: at the start of each iteration the memory holds whole words, its `lastGasCost` and the
expansion fees charged so far are `memoryFee` of its word count, and `memoryGasCost` on it charges, without a
wrap, the difference of `memoryFee` up to `0x1FFFFFFFE0` bytes and fails above; the fees charged in a whole
frame are `memoryFee` of the word count of the memory it ends with. -/
theorem newEVMInterpreter_chargesMemoryFee (host : Host σ Addr) (rules : ForkRules) (code : List UInt8)
    (sc : Scope (EvmCtx σ)) :
    (∀ n pc' sc' total, runLoop (newEVMInterpreter host rules) code n 0 { sc with mem := sc.mem.reset } 0 =
        some (pc', sc', total) →
      sc'.mem.len % 32 = 0 ∧ sc'.mem.lastGasCost = memoryFee (sc'.mem.len / 32) ∧
      total = memoryFee (sc'.mem.len / 32) ∧
      (∀ newMemSize ≤ maxMemorySize, ∃ fee,
        memoryFee (sc'.mem.len / 32) + fee = memoryFee (max (sc'.mem.len / 32) (toWordSize newMemSize)) ∧
        memoryGasCost sc'.mem newMemSize =
          .ok (fee, { sc'.mem with lastGasCost := memoryFee (max (sc'.mem.len / 32) (toWordSize newMemSize)) })) ∧
      ∀ newMemSize > maxMemorySize, memoryGasCost sc'.mem newMemSize = .error .errGasUintOverflow) ∧
    ∀ fuel res err mem total, run (newEVMInterpreter host rules) code fuel 0 { sc with mem := sc.mem.reset } 0 =
        some (res, err, mem, total) →
      total = memoryFee (mem.len / 32) :=
  run_chargesMemoryFee (newEVMInterpreter_keepsMemoryAccount host rules) code sc

end AmazeChain.Vm
