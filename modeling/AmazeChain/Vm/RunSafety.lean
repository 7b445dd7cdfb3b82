import AmazeChain.Vm.TableSafety

/-!
# `Run` over the jump table of the chain never panics

What `Run` needs of an entry beyond its instruction (`Operation.RunsOn`) holds of every entry of the table
`NewEVMInterpreter` chooses: it keeps the account of the memory (`Vm.JumpTable`), every gas function of the tables
leaves the stack, and each entry with a memory size has a dynamic gas function.  With the safety of each step
(`Vm.TableSafety`), the run lemmas of `Vm.StackSafety` then give: over a code shorter than a slice may be and a host
whose slices are, every iteration of a run from at most `1024` items starts on at most `1024` items and does not
panic, and a run that returns nothing has run out of fuel (`newEVMInterpreter_run_safe`).  So the memory size
`Run` hands each instruction is within the largest memory, which `Operation.Ready` asks for: the dynamic gas
priced it with `memoryGasCost`, which refuses a larger one.
-/

namespace AmazeChain.Vm

open EVM (VmError)

variable {S σ Addr : Type}

/-! ### The gas functions leave the stack -/

theorem expansionThen_leavesStack (rest : Scope S → ℕ → Except VmError ℕ) : LeavesStack (expansionThen rest) := by
  intro sc n c sc' h
  unfold expansionThen at h
  simp only [bind, Except.bind] at h
  cases hmem : memoryGasCost sc.mem n with
  | error e => simp [hmem] at h
  | ok r =>
    simp only [hmem] at h
    cases hrest : rest sc r.1 with
    | error e => simp [hrest] at h
    | ok gas =>
      simp only [hrest, pure, Except.pure, Except.ok.injEq, Prod.mk.injEq] at h
      rw [← h.2]

theorem memoryWordGas_leavesStack (stackpos wordGas : ℕ) : LeavesStack (memoryWordGas (S := S) stackpos wordGas) :=
  expansionThen_leavesStack _

theorem initCodeGas_leavesStack (wordGas : ℕ) : LeavesStack (initCodeGas (S := S) wordGas) :=
  expansionThen_leavesStack _

theorem makeGasLog_leavesStack (n : ℕ) : LeavesStack (makeGasLog (S := S) n) := by
  intro sc k c sc' h
  unfold makeGasLog at h
  dsimp only at h
  split at h
  · cases h
  · exact expansionThen_leavesStack _ sc k c sc' h

theorem pureMemoryGascost_leavesStack : LeavesStack (pureMemoryGascost (S := S)) :=
  fun _ _ _ _ h => pureMemoryGascost_stack h

theorem gasExp_leavesStack (expByte : ℕ) : LeavesStack (gasExp (S := S) expByte) := by
  intro sc n c sc' h
  rw [gasExp_eq_ok h]

theorem callVariantGas_leavesStack (surcharge : Scope (EvmCtx σ) → ℕ × σ) :
    LeavesStack (callVariantGas surcharge) := by
  intro sc n c sc' h
  unfold callVariantGas at h
  simp only [bind, Except.bind, pure, Except.pure] at h
  -- the expansion fee, two sums and `callGas`, each of which may fail; the scope changes its context and memory
  split at h
  · cases h
  · split at h
    · cases h
    · split at h
      · cases h
      · split at h
        · cases h
        · simp only [Except.ok.injEq, Prod.mk.injEq] at h
          rw [← h.2]

/-- The wrapper of EIP-2929 leaves the stack when the old calculator does. -/
theorem makeCallVariantGasCallEIP2929_leavesStack (ops : StateOps σ Addr) {old : GasFunc (EvmCtx σ)}
    (hold : LeavesStack old) : LeavesStack (makeCallVariantGasCallEIP2929 ops old) := by
  intro sc n c sc' h
  unfold makeCallVariantGasCallEIP2929 at h
  dsimp only at h
  by_cases hwarm : ops.addressInAccessList sc.ctx.state (ops.toAddress (back sc.stack 1)) = true
  · simp only [hwarm, ↓reduceIte, bind, Except.bind, pure, Except.pure] at h
    cases hold' : old sc n with
    | error e => simp [hold'] at h
    | ok r =>
      simp only [hold', Except.ok.injEq, Prod.mk.injEq] at h
      rw [← h.2]
      exact hold _ _ _ _ hold'
  · -- a cold address: the surcharge is taken from the gas before the old calculator runs
    simp only [hwarm, Bool.false_eq_true, ↓reduceIte, bind, Except.bind, pure, Except.pure] at h
    split at h
    · cases h
    · split at h
      · cases h
      · rename_i r hold'
        simp only [Except.ok.injEq, Prod.mk.injEq] at h
        rw [← h.2]
        have hstack := hold _ _ r.1 r.2 hold'
        exact hstack

theorem gasExtCodeCopyEIP2929_leavesStack (ops : StateOps σ Addr) : LeavesStack (gasExtCodeCopyEIP2929 ops) := by
  intro sc n c sc' h
  unfold gasExtCodeCopyEIP2929 at h
  simp only [bind, Except.bind] at h
  split at h
  · cases h
  · rename_i r hcopy
    have hstack := memoryWordGas_leavesStack 3 copyGas sc n r.1 r.2 hcopy
    -- what follows the copy's gas only moves the access list
    rw [← hstack]
    split at h
    · simp only [pure, Except.pure, Except.ok.injEq, Prod.mk.injEq] at h
      rw [← h.2]
    · split at h
      · cases h
      · simp only [pure, Except.pure, Except.ok.injEq, Prod.mk.injEq] at h
        rw [← h.2, Scope.withState_stack]

theorem gasEip2929AccountCheck_leavesStack (ops : StateOps σ Addr) : LeavesStack (gasEip2929AccountCheck ops) := by
  intro sc n c sc' h
  unfold gasEip2929AccountCheck at h
  dsimp only at h
  split at h <;> cases h <;> rfl

theorem gasSLoadEIP2929_leavesStack (host : Host σ Addr) : LeavesStack (gasSLoadEIP2929 host) := by
  intro sc n c sc' h
  unfold gasSLoadEIP2929 at h
  dsimp only at h
  split at h <;> cases h <;> rfl

theorem makeSelfdestructGasFn_leavesStack (host : Host σ Addr) (refundsEnabled : Bool) :
    LeavesStack (makeSelfdestructGasFn host refundsEnabled) := by
  intro sc n c sc' h
  unfold makeSelfdestructGasFn at h
  cases h
  rfl

theorem gasSelfdestruct_leavesStack (host : Host σ Addr) : LeavesStack (gasSelfdestruct host) := by
  intro sc n c sc' h
  unfold gasSelfdestruct at h
  cases h
  rfl

theorem sstoreGasFunc_leavesStack (host : Host σ Addr) (rule : SStoreGas) : LeavesStack (sstoreGasFunc host rule) := by
  intro sc n c sc' h
  unfold sstoreGasFunc at h
  cases hgas : host.sstoreGas rule sc.ctx.state sc.gas sc.stack with
  | error e => simp [hgas, Except.map] at h
  | ok r =>
    simp only [hgas, Except.map, Except.ok.injEq, Prod.mk.injEq] at h
    rw [← h.2, Scope.withState_stack]

/-! ### Every entry's gas leaves the stack -/

theorem Operation.GasLeavesStack.of_none {operation : Operation S} (hdyn : operation.dynamicGas = none)
    (hms : operation.memorySize = none) : operation.GasLeavesStack where
  dynamicGas_of_memorySize h := by rw [hms] at h; cases h
  dynamicGas_stack f h := by rw [hdyn] at h; cases h

theorem Operation.GasLeavesStack.of_some {operation : Operation S} {f : GasFunc S} (hdyn : operation.dynamicGas = some f)
    (hf : LeavesStack f) : operation.GasLeavesStack where
  dynamicGas_of_memorySize _ := by rw [hdyn]; rfl
  dynamicGas_stack g h := by
    rw [hdyn] at h
    cases h
    exact hf

/-- Every entry's gas leaves the stack. -/
def JumpTable.GasLeavesStack (jt : JumpTable S) : Prop := ∀ op, (jt op).GasLeavesStack

theorem JumpTable.GasLeavesStack.set {jt : JumpTable S} (hjt : jt.GasLeavesStack) (op : UInt8)
    {operation : Operation S} (h : operation.GasLeavesStack) : (jt.set op operation).GasLeavesStack := by
  intro o
  unfold JumpTable.set
  split
  · exact h
  · exact hjt o

theorem JumpTable.GasLeavesStack.setConstantGas {jt : JumpTable S} (hjt : jt.GasLeavesStack) (op : UInt8)
    (constantGas : ℕ) : (jt.setConstantGas op constantGas).GasLeavesStack :=
  hjt.set op ⟨(hjt op).dynamicGas_of_memorySize, (hjt op).dynamicGas_stack⟩

theorem JumpTable.GasLeavesStack.setDynamicGas {jt : JumpTable S} (hjt : jt.GasLeavesStack) (op : UInt8)
    {f : GasFunc S} (hf : LeavesStack f) : (jt.setDynamicGas op f).GasLeavesStack :=
  hjt.set op (.of_some rfl hf)

section Forks

variable (host : Host σ Addr)

theorem newFrontierInstructionSet_gasLeavesStack : (newFrontierInstructionSet host).GasLeavesStack := by
  intro op
  unfold newFrontierInstructionSet
  -- one goal per entry: no gas and no memory, or the lemma of its gas function
  split
  all_goals first
    | exact .of_none rfl rfl
    | exact .of_some rfl pureMemoryGascost_leavesStack
    | exact .of_some rfl (memoryWordGas_leavesStack _ _)
    | exact .of_some rfl (gasExp_leavesStack _)
    | exact .of_some rfl (callVariantGas_leavesStack _)
    | exact .of_some rfl (sstoreGasFunc_leavesStack host _)
    | exact .of_some rfl (gasSelfdestruct_leavesStack host)
    | split_ifs
      · exact .of_none rfl rfl
      · exact .of_none rfl rfl
      · exact .of_none rfl rfl
      · exact .of_some rfl (makeGasLog_leavesStack _)
      · exact .of_none rfl rfl

theorem newHomesteadInstructionSet_gasLeavesStack : (newHomesteadInstructionSet host).GasLeavesStack :=
  (newFrontierInstructionSet_gasLeavesStack host).set _ (.of_some rfl (callVariantGas_leavesStack _))

theorem newTangerineWhistleInstructionSet_gasLeavesStack :
    (newTangerineWhistleInstructionSet host).GasLeavesStack :=
  newHomesteadInstructionSet_gasLeavesStack host
    |>.setConstantGas BALANCE balanceGasEIP150
    |>.setConstantGas EXTCODESIZE extcodeSizeGasEIP150
    |>.setConstantGas SLOAD sloadGasEIP150
    |>.setConstantGas EXTCODECOPY extcodeCopyBaseEIP150
    |>.setConstantGas CALL callGasEIP150
    |>.setConstantGas CALLCODE callGasEIP150
    |>.setConstantGas DELEGATECALL callGasEIP150

theorem newSpuriousDragonInstructionSet_gasLeavesStack :
    (newSpuriousDragonInstructionSet host).GasLeavesStack :=
  (newTangerineWhistleInstructionSet_gasLeavesStack host).setDynamicGas EXP (gasExp_leavesStack _)

theorem newByzantiumInstructionSet_gasLeavesStack : (newByzantiumInstructionSet host).GasLeavesStack :=
  newSpuriousDragonInstructionSet_gasLeavesStack host
    |>.set STATICCALL (.of_some rfl (callVariantGas_leavesStack _))
    |>.set RETURNDATASIZE (.of_none rfl rfl)
    |>.set RETURNDATACOPY (.of_some rfl (memoryWordGas_leavesStack _ _))
    |>.set REVERT (.of_some rfl pureMemoryGascost_leavesStack)

theorem newConstantinopleInstructionSet_gasLeavesStack :
    (newConstantinopleInstructionSet host).GasLeavesStack :=
  newByzantiumInstructionSet_gasLeavesStack host
    |>.set SHL (.of_none rfl rfl)
    |>.set SHR (.of_none rfl rfl)
    |>.set SAR (.of_none rfl rfl)
    |>.set EXTCODEHASH (.of_none rfl rfl)
    |>.set CREATE2 (.of_some rfl (memoryWordGas_leavesStack _ _))

theorem enable1344_gasLeavesStack {jt : JumpTable (EvmCtx σ)} (hjt : jt.GasLeavesStack) :
    (enable1344 host jt).GasLeavesStack :=
  hjt.set _ (.of_none rfl rfl)

theorem enable1884_gasLeavesStack {jt : JumpTable (EvmCtx σ)} (hjt : jt.GasLeavesStack) :
    (enable1884 host jt).GasLeavesStack :=
  hjt
    |>.setConstantGas SLOAD sloadGasEIP1884
    |>.setConstantGas BALANCE balanceGasEIP1884
    |>.setConstantGas EXTCODEHASH extcodeHashGasEIP1884
    |>.set SELFBALANCE (.of_none rfl rfl)

theorem enable2200_gasLeavesStack {jt : JumpTable (EvmCtx σ)} (hjt : jt.GasLeavesStack) :
    (enable2200 host jt).GasLeavesStack :=
  (hjt.setConstantGas SLOAD sloadGasEIP2200).setDynamicGas SSTORE (sstoreGasFunc_leavesStack host _)

/-- The access lists move the state only. -/
theorem enable2929_gasLeavesStack {jt : JumpTable (EvmCtx σ)} (hjt : jt.GasLeavesStack) :
    (enable2929 host jt).GasLeavesStack :=
  hjt
    |>.setDynamicGas SSTORE (sstoreGasFunc_leavesStack host _)
    |>.setConstantGas SLOAD 0
    |>.setDynamicGas SLOAD (gasSLoadEIP2929_leavesStack host)
    |>.setConstantGas EXTCODECOPY warmStorageReadCostEIP2929
    |>.setDynamicGas EXTCODECOPY (gasExtCodeCopyEIP2929_leavesStack host.toStateOps)
    |>.setConstantGas EXTCODESIZE warmStorageReadCostEIP2929
    |>.setDynamicGas EXTCODESIZE (gasEip2929AccountCheck_leavesStack host.toStateOps)
    |>.setConstantGas EXTCODEHASH warmStorageReadCostEIP2929
    |>.setDynamicGas EXTCODEHASH (gasEip2929AccountCheck_leavesStack host.toStateOps)
    |>.setConstantGas BALANCE warmStorageReadCostEIP2929
    |>.setDynamicGas BALANCE (gasEip2929AccountCheck_leavesStack host.toStateOps)
    |>.setConstantGas CALL warmStorageReadCostEIP2929
    |>.setDynamicGas CALL (makeCallVariantGasCallEIP2929_leavesStack _ (callVariantGas_leavesStack _))
    |>.setConstantGas CALLCODE warmStorageReadCostEIP2929
    |>.setDynamicGas CALLCODE (makeCallVariantGasCallEIP2929_leavesStack _ (callVariantGas_leavesStack _))
    |>.setConstantGas STATICCALL warmStorageReadCostEIP2929
    |>.setDynamicGas STATICCALL (makeCallVariantGasCallEIP2929_leavesStack _ (callVariantGas_leavesStack _))
    |>.setConstantGas DELEGATECALL warmStorageReadCostEIP2929
    |>.setDynamicGas DELEGATECALL (makeCallVariantGasCallEIP2929_leavesStack _ (callVariantGas_leavesStack _))
    |>.setConstantGas SELFDESTRUCT selfdestructGasEIP150
    |>.setDynamicGas SELFDESTRUCT (makeSelfdestructGasFn_leavesStack host true)

theorem enable3529_gasLeavesStack {jt : JumpTable (EvmCtx σ)} (hjt : jt.GasLeavesStack) :
    (enable3529 host jt).GasLeavesStack :=
  (hjt.setDynamicGas SSTORE (sstoreGasFunc_leavesStack host _)).setDynamicGas SELFDESTRUCT
    (makeSelfdestructGasFn_leavesStack host false)

theorem enable3198_gasLeavesStack {jt : JumpTable (EvmCtx σ)} (hjt : jt.GasLeavesStack) :
    (enable3198 host jt).GasLeavesStack :=
  hjt.set _ (.of_none rfl rfl)

theorem enable3855_gasLeavesStack {jt : JumpTable (EvmCtx σ)} (hjt : jt.GasLeavesStack) :
    (enable3855 jt).GasLeavesStack :=
  hjt.set _ (.of_none rfl rfl)

theorem enable3860_gasLeavesStack {jt : JumpTable (EvmCtx σ)} (hjt : jt.GasLeavesStack) :
    (enable3860 jt).GasLeavesStack :=
  (hjt.setDynamicGas CREATE (initCodeGas_leavesStack _)).setDynamicGas CREATE2 (initCodeGas_leavesStack _)

theorem newIstanbulInstructionSet_gasLeavesStack : (newIstanbulInstructionSet host).GasLeavesStack :=
  enable2200_gasLeavesStack host (enable1884_gasLeavesStack host (enable1344_gasLeavesStack host
    (newConstantinopleInstructionSet_gasLeavesStack host)))

theorem newBerlinInstructionSet_gasLeavesStack : (newBerlinInstructionSet host).GasLeavesStack :=
  enable2929_gasLeavesStack host (newIstanbulInstructionSet_gasLeavesStack host)

theorem newLondonInstructionSet_gasLeavesStack : (newLondonInstructionSet host).GasLeavesStack :=
  enable3198_gasLeavesStack host (enable3529_gasLeavesStack host (newBerlinInstructionSet_gasLeavesStack host))

theorem newShanghaiInstructionSet_gasLeavesStack : (newShanghaiInstructionSet host).GasLeavesStack :=
  enable3860_gasLeavesStack (enable3855_gasLeavesStack (newLondonInstructionSet_gasLeavesStack host))

theorem newEVMInterpreter_gasLeavesStack (rules : ForkRules) : (newEVMInterpreter host rules).GasLeavesStack :=
  newEVMInterpreter_of_forks JumpTable.GasLeavesStack host rules
    (newFrontierInstructionSet_gasLeavesStack host) (newHomesteadInstructionSet_gasLeavesStack host)
    (newTangerineWhistleInstructionSet_gasLeavesStack host) (newSpuriousDragonInstructionSet_gasLeavesStack host)
    (newByzantiumInstructionSet_gasLeavesStack host) (newConstantinopleInstructionSet_gasLeavesStack host)
    (newIstanbulInstructionSet_gasLeavesStack host) (newBerlinInstructionSet_gasLeavesStack host)
    (newLondonInstructionSet_gasLeavesStack host) (newShanghaiInstructionSet_gasLeavesStack host)

end Forks

/-! ### Whole runs -/

/-- A safe step whose gas keeps the account and leaves the stack may run on a code shorter than a slice may be. -/
theorem Operation.StepSafe.runsOn {operation : Operation S} {numPush : ℕ} (h : operation.StepSafe numPush)
    (hacc : operation.KeepsMemoryAccount) (hgas : operation.GasLeavesStack) {code : List UInt8}
    (hcode : code.length < 2 ^ 63) : operation.RunsOn code where
  keepsMemoryAccount := hacc
  gasLeavesStack := hgas
  execute pc sc hready hle := by
    obtain ⟨r, hr, hshape⟩ := h.execute code pc sc hcode hready hle
    refine ⟨r, hr, fun pc' sc' hnext => ?_⟩
    obtain ⟨-, hlimit, hdrop⟩ := hshape pc' sc' hnext
    rw [← hdrop]
    exact ⟨hlimit, List.drop_suffix _ _⟩

/-- For any rules, over the table `NewEVMInterpreter` chooses, a code shorter than `2 ^ 63` bytes and a host whose
input and codes are, every run of `Run`'s loop from a stack of at most `1024` items starts each iteration on at
most `1024` items, and the iteration does not panic and keeps the items under those its instruction pops; a run
that returns nothing has run out of fuel. -/
theorem newEVMInterpreter_run_safe (host : Host σ Addr) (hhost : host.SliceBounded) (rules : ForkRules)
    {code : List UInt8} (hcode : code.length < 2 ^ 63) {pc total : ℕ} {sc : Scope (EvmCtx σ)}
    (hsc : sc.stack.length ≤ stackLimit) :
    (∀ n pc' sc' total', runLoop (newEVMInterpreter host rules) code n pc sc total = some (pc', sc', total') →
      sc'.stack.length ≤ stackLimit ∧ ∃ r, step (newEVMInterpreter host rules) code pc' sc' = some r ∧
        ∀ pc'' sc'' fee, r = .next pc'' sc'' fee →
          sc'.stack.drop (newEVMInterpreter host rules (code.getD pc' 0)).numPop <:+ sc''.stack) ∧
    ∀ fuel, run (newEVMInterpreter host rules) code fuel pc sc total = none →
      ∃ pc' sc' total', runLoop (newEVMInterpreter host rules) code fuel pc sc total = some (pc', sc', total') :=
  run_safe_of_runsOn (fun op => (newEVMInterpreter_stepSafe host hhost rules op).elim fun _ h =>
    h.runsOn (newEVMInterpreter_keepsMemoryAccount host rules op) (newEVMInterpreter_gasLeavesStack host rules op)
      hcode) hsc

theorem newEVMInterpreter_run_safe_valueCall :
    (exampleHost.SliceBounded ∧ [0x60, 0x01, 0x00].length < 2 ^ 63 ∧ valueCallScope.stack.length ≤ stackLimit) ∧
    (∀ n pc' sc' total', runLoop (newEVMInterpreter exampleHost (exampleHost.chainRules ())) [0x60, 0x01, 0x00] n 0
        valueCallScope 0 = some (pc', sc', total') →
      sc'.stack.length ≤ stackLimit ∧
        ∃ r, step (newEVMInterpreter exampleHost (exampleHost.chainRules ())) [0x60, 0x01, 0x00] pc' sc' = some r ∧
          ∀ pc'' sc'' fee, r = .next pc'' sc'' fee →
            sc'.stack.drop (newEVMInterpreter exampleHost (exampleHost.chainRules ())
              ([0x60, 0x01, 0x00].getD pc' 0)).numPop <:+ sc''.stack) ∧
    ∀ fuel, run (newEVMInterpreter exampleHost (exampleHost.chainRules ())) [0x60, 0x01, 0x00] fuel 0
        valueCallScope 0 = none →
      ∃ pc' sc' total', runLoop (newEVMInterpreter exampleHost (exampleHost.chainRules ())) [0x60, 0x01, 0x00] fuel 0
        valueCallScope 0 = some (pc', sc', total') :=
  ⟨⟨exampleHost_sliceBounded, by decide, by decide⟩,
    newEVMInterpreter_run_safe exampleHost exampleHost_sliceBounded _ (by decide) (by decide)⟩

end AmazeChain.Vm
