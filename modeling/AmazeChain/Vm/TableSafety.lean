import AmazeChain.Vm.StepSafety

/-!
# Every jump table is safe to run

Every entry of every table that the `new*InstructionSet` constructors build keeps the contract of
`Vm.StepSafety`, and so does every table `EnableEIP` makes of one: Frontier's entry by entry, each from the lemma of
its family of instructions, and each later fork and each activator because it sets safe entries and changes gas
only, which the contract does not read.  So for any rules and any EIPs enabled, each entry of the table
`NewEVMInterpreter` chooses is safe to run once `Run` has checked the stack and expanded the memory
(`instructionSet_stepSafe`).
-/

namespace AmazeChain.Vm

open EVM (OpCode)

variable {σ Addr : Type}

section Entries

variable (host : Host σ Addr)

theorem logOperation_stepSafe (n : ℕ) : (logOperation host n).StepSafe 0 :=
  mkOperation_memoryAt_stepSafe (by unfold stackLimit; omega) (by omega) (by omega) (makeLog_framed host n)
    ((makeLog_exactShape host n).mono fun _ _ h => h.2)

theorem callWithoutValue_stepSafe (typ : OpCode) (constantGas : ℕ) (dynamicGas : Option (GasFunc (EvmCtx σ))) :
    (mkOperation (callWithoutValue host typ) constantGas dynamicGas 6 1 (some (memoryCallArgs 4 2))).StepSafe 1 :=
  mkOperation_memoryCallArgs_stepSafe (by decide) (by decide) (by decide) (callWithoutValue_framed host typ)
    (callWithoutValue_exactShape host typ)

theorem extCodeCopy_stepSafe (hhost : host.SliceBounded) (constantGas : ℕ)
    (dynamicGas : Option (GasFunc (EvmCtx σ))) :
    (mkOperation (opExtCodeCopy host) constantGas dynamicGas 4 0 (some memoryExtCodeCopy)).StepSafe 0 :=
  mkOperation_memoryAt_stepSafe (by decide) (by decide) (by decide) (opExtCodeCopy_framed host)
    ((opExtCodeCopy_exactShape hhost).mono fun _ _ h => h.2)

theorem create_stepSafe (constantGas : ℕ) (dynamicGas : Option (GasFunc (EvmCtx σ))) :
    (mkOperation (opCreate host) constantGas dynamicGas 3 1 (some memoryCreate)).StepSafe 1 :=
  mkOperation_memoryAt_stepSafe (by decide) (by decide) (by decide) (opCreate_framed host)
    ((opCreate_exactShape host).mono fun _ _ h => h.2)

theorem create2_stepSafe (constantGas : ℕ) (dynamicGas : Option (GasFunc (EvmCtx σ))) :
    (mkOperation (opCreate2 host) constantGas dynamicGas 4 1 (some memoryCreate2)).StepSafe 1 :=
  mkOperation_memoryAt_stepSafe (by decide) (by decide) (by decide) (opCreate2_framed host)
    ((opCreate2_exactShape host).mono fun _ _ h => h.2)

end Entries

section Forks

variable (host : Host σ Addr) (hhost : host.SliceBounded)
include hhost

/-- Every entry of Frontier is safe. -/
theorem newFrontierInstructionSet_stepSafe : (newFrontierInstructionSet host).StepSafe := by
  intro op
  unfold newFrontierInstructionSet
  -- one goal per entry, closed by the lemma of its family of instructions
  split
  all_goals first
    -- the entries of `Vm.Interpreter` and `Vm.Instructions` with their own lemmas
    | exact ⟨_, stopOperation_stepSafe⟩
    | exact ⟨_, mloadOperation_stepSafe⟩
    | exact ⟨_, mstoreOperation_stepSafe⟩
    | exact ⟨_, mstore8Operation_stepSafe⟩
    | exact ⟨_, push1Operation_stepSafe⟩
    -- the instructions of the stack and those that read the host
    | exact ⟨_, (binaryOp_stackShaped _).stepSafe (binaryOp_framed _) (by decide)⟩
    | exact ⟨_, (unaryOp_stackShaped _).stepSafe (unaryOp_framed _) (by decide)⟩
    | exact ⟨_, (ternaryOp_stackShaped _).stepSafe (ternaryOp_framed _) (by decide)⟩
    | exact ⟨_, pushOp_stepSafe (fun _ _ _ => rfl) _⟩
    | exact ⟨_, peekOp_stepSafe _ _⟩
    | exact ⟨_, opPop_stackShaped.stepSafe opPop_framed (by decide)⟩
    | exact ⟨_, opJumpdest_stackShaped.stepSafe opJumpdest_framed (by decide)⟩
    | exact ⟨_, (StackShaped.of_push fun _ _ _ => ⟨_, _, rfl⟩).stepSafe opCodeSize_framed (by decide)⟩
    | exact ⟨_, opCallDataLoad_stepSafe hhost _⟩
    | exact ⟨_, (opDifficulty_stackShaped host).stepSafe (opDifficulty_framed host) (by decide)⟩
    | exact ⟨_, stackOperation_stepSafe (by decide) (opJump_framed host) (opJump_exactShape host _)⟩
    | exact ⟨_, stackOperation_stepSafe (by decide) (opJumpi_framed host) (opJumpi_exactShape host _)⟩
    -- with a gas function and no memory size
    | exact ⟨_, mkOperation_stepSafe (by decide) (binaryOp_framed _) ((binaryOp_stackShaped _).exactShape _)⟩
    | exact ⟨_, mkOperation_stepSafe (by decide) (opSstore_framed host) (opSstore_exactShape host _)⟩
    | exact ⟨_, mkOperation_stepSafe (by decide) (opSelfdestruct_framed host) (opSelfdestruct_exactShape host _)⟩
    -- with a memory size
    | exact ⟨_, mkOperation_memoryAt_stepSafe (by decide) (by decide) (by decide) (opKeccak256_framed host)
        ((opKeccak256_exactShape host).mono fun _ _ h => h.2)⟩
    | exact ⟨_, mkOperation_memoryAt_stepSafe (by decide) (by decide) (by decide) (opCallDataCopy_framed host)
        ((opCallDataCopy_exactShape hhost).mono fun _ _ h => h.2)⟩
    | exact ⟨_, mkOperation_memoryAt_stepSafe (by decide) (by decide) (by decide) opCodeCopy_framed
        opCodeCopy_exactShape⟩
    | exact ⟨_, extCodeCopy_stepSafe host hhost _ _⟩
    | exact ⟨_, create_stepSafe host _ _⟩
    | exact ⟨_, mkOperation_memoryCallArgs_stepSafe (by decide) (by decide) (by decide) (opCall_framed host)
        (opCall_exactShape host)⟩
    | exact ⟨_, mkOperation_memoryCallArgs_stepSafe (by decide) (by decide) (by decide) (opCallCode_framed host)
        (opCallCode_exactShape host)⟩
    | exact ⟨_, mkOperation_memoryAt_stepSafe (by decide) (by decide) (by decide) opReturn_framed
        (opReturn_exactShape.mono fun _ _ h => h.2)⟩
    -- `PUSH2` to `PUSH32`, `DUP1` to `DUP16`, `SWAP1` to `SWAP16`, `LOG0` to `LOG4` and the unassigned slots
    | split_ifs with hpush hdup
      · exact ⟨_, (makePush_stackShaped _ _).stepSafe (makePush_framed _ _) (by decide)⟩
      · have hn : 0 < op.toNat - 0x7f := by
          have := UInt8.le_iff_toNat_le.1 hdup.1
          simp only [UInt8.reduceToNat] at this
          omega
        exact ⟨_, (makeDup_stackShaped hn).stepSafe (makeDup_framed hn) (by unfold stackLimit; omega)⟩
      · exact ⟨_, (makeSwap_stackShaped _).stepSafe (makeSwap_framed _) (by unfold stackLimit; omega)⟩
      · exact ⟨_, logOperation_stepSafe host _⟩
      · exact ⟨_, undefinedOperation_stepSafe⟩

theorem newHomesteadInstructionSet_stepSafe : (newHomesteadInstructionSet host).StepSafe :=
  (newFrontierInstructionSet_stepSafe host hhost).set _ (callWithoutValue_stepSafe host _ _ _)

theorem newTangerineWhistleInstructionSet_stepSafe : (newTangerineWhistleInstructionSet host).StepSafe :=
  newHomesteadInstructionSet_stepSafe host hhost
    |>.setConstantGas BALANCE balanceGasEIP150
    |>.setConstantGas EXTCODESIZE extcodeSizeGasEIP150
    |>.setConstantGas SLOAD sloadGasEIP150
    |>.setConstantGas EXTCODECOPY extcodeCopyBaseEIP150
    |>.setConstantGas CALL callGasEIP150
    |>.setConstantGas CALLCODE callGasEIP150
    |>.setConstantGas DELEGATECALL callGasEIP150

theorem newSpuriousDragonInstructionSet_stepSafe : (newSpuriousDragonInstructionSet host).StepSafe :=
  (newTangerineWhistleInstructionSet_stepSafe host hhost).setDynamicGas EXP gasExpEIP160

theorem newByzantiumInstructionSet_stepSafe : (newByzantiumInstructionSet host).StepSafe :=
  newSpuriousDragonInstructionSet_stepSafe host hhost
    |>.set STATICCALL (callWithoutValue_stepSafe host _ _ _)
    |>.set RETURNDATASIZE (pushOp_stepSafe (fun _ _ _ => rfl) _)
    |>.set RETURNDATACOPY (mkOperation_memoryAt_stepSafe (by decide) (by decide) (by decide)
      (opReturnDataCopy_framed host) ((opReturnDataCopy_exactShape host).mono fun _ _ h => h.2))
    |>.set REVERT (mkOperation_memoryAt_stepSafe (by decide) (by decide) (by decide) opRevert_framed
      (opRevert_exactShape.mono fun _ _ h => h.2))

theorem newConstantinopleInstructionSet_stepSafe : (newConstantinopleInstructionSet host).StepSafe :=
  newByzantiumInstructionSet_stepSafe host hhost
    |>.set SHL ((binaryOp_stackShaped _).stepSafe (binaryOp_framed _) (by decide))
    |>.set SHR ((binaryOp_stackShaped _).stepSafe (binaryOp_framed _) (by decide))
    |>.set SAR ((binaryOp_stackShaped _).stepSafe (binaryOp_framed _) (by decide))
    |>.set EXTCODEHASH (peekOp_stepSafe _ _)
    |>.set CREATE2 (create2_stepSafe host _ _)

omit hhost in
theorem enable1344_stepSafe {jt : JumpTable (EvmCtx σ)} (hjt : jt.StepSafe) : (enable1344 host jt).StepSafe :=
  hjt.set _ (pushOp_stepSafe (fun _ _ _ => rfl) _)

omit hhost in
theorem enable1884_stepSafe {jt : JumpTable (EvmCtx σ)} (hjt : jt.StepSafe) : (enable1884 host jt).StepSafe :=
  hjt
    |>.setConstantGas SLOAD sloadGasEIP1884
    |>.setConstantGas BALANCE balanceGasEIP1884
    |>.setConstantGas EXTCODEHASH extcodeHashGasEIP1884
    |>.set SELFBALANCE (pushOp_stepSafe (fun _ _ _ => rfl) _)

omit hhost in
theorem enable2200_stepSafe {jt : JumpTable (EvmCtx σ)} (hjt : jt.StepSafe) : (enable2200 host jt).StepSafe :=
  (hjt.setConstantGas SLOAD sloadGasEIP2200).setDynamicGas SSTORE host.gasSStoreEIP2200

omit hhost in
/-- The access lists change gas only. -/
theorem enable2929_stepSafe {jt : JumpTable (EvmCtx σ)} (hjt : jt.StepSafe) : (enable2929 host jt).StepSafe := by
  unfold enable2929
  repeat first
    | apply JumpTable.StepSafe.setDynamicGas
    | apply JumpTable.StepSafe.setConstantGas
  exact hjt

omit hhost in
theorem enable3529_stepSafe {jt : JumpTable (EvmCtx σ)} (hjt : jt.StepSafe) : (enable3529 host jt).StepSafe :=
  (hjt.setDynamicGas SSTORE host.gasSStoreEIP3529).setDynamicGas SELFDESTRUCT (gasSelfdestructEIP3529 host)

omit hhost in
theorem enable3198_stepSafe {jt : JumpTable (EvmCtx σ)} (hjt : jt.StepSafe) : (enable3198 host jt).StepSafe :=
  hjt.set _ (pushOp_stepSafe (fun _ _ _ => rfl) _)

omit hhost in
theorem enable3855_stepSafe {jt : JumpTable (EvmCtx σ)} (hjt : jt.StepSafe) : (enable3855 jt).StepSafe :=
  hjt.set _ (pushOp_stepSafe (fun _ _ _ => rfl) _)

omit hhost in
theorem enable3860_stepSafe {jt : JumpTable (EvmCtx σ)} (hjt : jt.StepSafe) : (enable3860 jt).StepSafe :=
  (hjt.setDynamicGas CREATE gasCreateEip3860).setDynamicGas CREATE2 gasCreate2Eip3860

theorem newIstanbulInstructionSet_stepSafe : (newIstanbulInstructionSet host).StepSafe :=
  enable2200_stepSafe host (enable1884_stepSafe host (enable1344_stepSafe host
    (newConstantinopleInstructionSet_stepSafe host hhost)))

theorem newBerlinInstructionSet_stepSafe : (newBerlinInstructionSet host).StepSafe :=
  enable2929_stepSafe host (newIstanbulInstructionSet_stepSafe host hhost)

theorem newLondonInstructionSet_stepSafe : (newLondonInstructionSet host).StepSafe :=
  enable3198_stepSafe host (enable3529_stepSafe host (newBerlinInstructionSet_stepSafe host hhost))

theorem newShanghaiInstructionSet_stepSafe : (newShanghaiInstructionSet host).StepSafe :=
  enable3860_stepSafe (enable3855_stepSafe (newLondonInstructionSet_stepSafe host hhost))

/-- Every entry of the table `NewEVMInterpreter` chooses is safe, whatever the rules. -/
theorem newEVMInterpreter_stepSafe (rules : ForkRules) : (newEVMInterpreter host rules).StepSafe :=
  newEVMInterpreter_of_forks JumpTable.StepSafe host rules
    (newFrontierInstructionSet_stepSafe host hhost) (newHomesteadInstructionSet_stepSafe host hhost)
    (newTangerineWhistleInstructionSet_stepSafe host hhost) (newSpuriousDragonInstructionSet_stepSafe host hhost)
    (newByzantiumInstructionSet_stepSafe host hhost) (newConstantinopleInstructionSet_stepSafe host hhost)
    (newIstanbulInstructionSet_stepSafe host hhost) (newBerlinInstructionSet_stepSafe host hhost)
    (newLondonInstructionSet_stepSafe host hhost) (newShanghaiInstructionSet_stepSafe host hhost)

end Forks

/-! ### `EnableEIP` -/

section EnableEIP

variable (host : Host σ Addr)

/-- Each activator keeps every entry safe. -/
theorem activators_stepSafe {eipNum : ℤ} {enablerFn : JumpTable (EvmCtx σ) → JumpTable (EvmCtx σ)}
    (h : activators host eipNum = some enablerFn) {jt : JumpTable (EvmCtx σ)} (hjt : jt.StepSafe) :
    (enablerFn jt).StepSafe := by
  unfold activators at h
  split_ifs at h <;> cases h
  · exact enable3855_stepSafe hjt
  · exact enable3860_stepSafe hjt
  · exact enable3529_stepSafe host hjt
  · exact enable3198_stepSafe host hjt
  · exact enable2929_stepSafe host hjt
  · exact enable2200_stepSafe host hjt
  · exact enable1884_stepSafe host hjt
  · exact enable1344_stepSafe host hjt

theorem enableEIP_stepSafe {eipNum : ℤ} {jt jt' : JumpTable (EvmCtx σ)} (hjt : jt.StepSafe)
    (h : enableEIP host eipNum jt = .ok jt') : jt'.StepSafe := by
  unfold enableEIP at h
  split at h
  · cases h
    exact activators_stepSafe host ‹_› hjt
  · cases h

theorem enableEIPs_stepSafe (eips : List ℤ) {jt : JumpTable (EvmCtx σ)} (hjt : jt.StepSafe) :
    (enableEIPs host eips jt).StepSafe := by
  -- induction on the EIPs, each enabled on the table the ones before it left
  induction eips generalizing jt with
  | nil => exact hjt
  | cons eipNum eips ih =>
    unfold enableEIPs
    rw [List.foldl_cons]
    apply ih
    cases h : enableEIP host eipNum jt with
    | ok jt' => exact enableEIP_stepSafe host hjt h
    | error _ => exact hjt

end EnableEIP

/-- A host over no state whose input, return data and codes are empty, on a chain from Shanghai on. -/
def exampleHost : Host Unit ℕ :=
  { exampleOps with
    toWord := fun a => BitVec.ofNat 256 a
    chainRules := fun _ => ⟨true, true, true, true, true, true, true, true, true, false, false⟩
    address := fun _ => 0
    caller := fun _ => 0
    callValue := fun _ => 0
    input := fun _ => []
    validJumpdest := fun _ _ => false
    readOnly := fun _ => false
    returnData := fun _ => []
    setReturnData := fun s _ => s
    keccak256 := fun _ => 0
    origin := fun _ => 0
    gasPrice := fun _ => 0
    coinbase := fun _ => 0
    time := fun _ => 0
    blockNumber := fun _ => 0
    prevRanDao := fun _ => none
    difficulty := fun _ => 0
    maxGasLimit := fun _ => false
    gasLimit := fun _ => 0
    getHash := fun _ _ => 0
    chainId := fun _ => 0
    baseFee := fun _ => 0
    getBalance := fun _ _ => 0
    getCodeSize := fun _ _ => 0
    getCode := fun _ _ => []
    getCodeHash := fun _ _ => 0
    getState := fun _ _ _ => 0
    setState := fun s _ _ _ => s
    slotInAccessList := fun _ _ _ => false
    addSlotToAccessList := fun s _ _ => s
    hasSelfdestructed := fun _ _ => false
    addRefund := fun s _ => s
    addLog := fun s _ _ _ _ => s
    sstoreGas := fun _ s _ _ => .ok (0, s)
    call := fun _ s _ _ gas _ => ([], gas, none, s)
    create := fun s _ gas _ _ => ([], 0, gas, none, s) }

theorem exampleHost_sliceBounded : exampleHost.SliceBounded :=
  ⟨fun _ => Nat.two_pow_pos 63, fun _ _ => Nat.two_pow_pos 63⟩

/-- For any rules and any EIPs enabled after, every entry of the table `NewEVMInterpreter` chooses, which is the
table of one of the `new*InstructionSet` constructors, is safe to run once `Run` has checked the stack and expanded
the memory: its `maxStack` is what `validateAndFillMaxStack` fills in, it reads and writes only its top `numPop`
items, and on a stack of `numPop` to `maxStack` items it does not panic and leaves `numPush` items in their place,
at most `1024`. -/
theorem instructionSet_stepSafe (host : Host σ Addr) (hhost : host.SliceBounded) (rules : ForkRules)
    (eips : List ℤ) (op : UInt8) : ∃ numPush, (enableEIPs host eips (newEVMInterpreter host rules) op).StepSafe numPush :=
  enableEIPs_stepSafe host eips (newEVMInterpreter_stepSafe host hhost rules) op

theorem instructionSet_stepSafe_push0 :
    exampleHost.SliceBounded ∧
      ∃ numPush, (enableEIPs exampleHost [3855] (newEVMInterpreter exampleHost (exampleHost.chainRules ())) PUSH0).StepSafe
        numPush :=
  ⟨exampleHost_sliceBounded, instructionSet_stepSafe exampleHost exampleHost_sliceBounded _ _ _⟩

end AmazeChain.Vm
