import AmazeChain.Vm.Memory

/-!
# The gas of the call instructions

`callGas` (`internal/vm/gas.go`), the dynamic gas functions `gasCall`, `gasCallCode`, `gasDelegateCall` and
`gasStaticCall` (`gas_table.go`), their EIP-2929 wrapper `makeCallVariantGasCallEIP2929`
(`operations_acl.go`) and `Contract.UseGas`.  A dynamic gas function sees what `Run` hands an instruction
(`Scope`: the contract's gas, the stack, the memory and the rest of the context) and the memory size `Run`
computed; it returns the cost and the scope it leaves.  The four call functions are one definition,
`callVariantGas`, applied to each one's surcharge; `gasCallCode` prices the memory before its surcharge and
`gasCall` after, which changes nothing, as neither touches what the other reads.

Under TangerineWhistle, whenever `UseGas` accepts the cost `c` a call function returns, the gas it keeps for
the callee in `callGasTemp` is at most the all-but-one-64th of what remains after the surcharge `base`, and
`c = base + callGasTemp` without a wrap (`dynamicCallGas_within_budget`): `UseGas` accepting `c` rules out the
wrap of `contract.Gas - base` in `callGas`.

A stack position is read with `getD`: `Run` has checked that the instruction's `numPop` items are there.  An
error ends the frame, whose changes the caller reverts, so the model returns no scope with it.
-/

namespace AmazeChain.Vm

open EVM (VmError OpCode)
open Txspool (u64)

/-- What `Run` hands an instruction: the contract's gas, the stack (its top first), the memory and the rest of
the interpreter's context. -/
structure Scope (S : Type) where
  gas : ℕ
  stack : List (BitVec 256)
  mem : Memory
  ctx : S

/-- `Stack.Back(n)`. -/
def back (stack : List (BitVec 256)) (n : ℕ) : BitVec 256 := stack.getD n 0

/-- A dynamic gas function: the scope and the memory size, to the cost and the scope it leaves. -/
abbrev GasFunc (S : Type) := Scope S → ℕ → Except VmError (ℕ × Scope S)

/-- `Contract.UseGas`: `none` when the gas does not cover the cost. -/
def useGas (gas cost : ℕ) : Option ℕ := if gas < cost then none else some (gas - cost)

/-- `math.SafeAdd` on `uint64`: the wrapped sum and whether it wrapped. -/
def safeAdd (x y : ℕ) : ℕ × Bool := ((x + y) % u64, decide (u64 ≤ x + y))

theorem useGas_ne_none {gas cost : ℕ} : useGas gas cost ≠ none ↔ cost ≤ gas := by
  unfold useGas
  split <;> simp <;> omega

theorem safeAdd_of_not_overflow {x y s : ℕ} (h : safeAdd x y = (s, false)) : s = x + y ∧ x + y < u64 := by
  unfold safeAdd at h
  simp only [Prod.mk.injEq, decide_eq_false_iff_not, Nat.not_le] at h
  obtain ⟨rfl, hlt⟩ := h
  exact ⟨Nat.mod_eq_of_lt hlt, hlt⟩

/-! ### `callGas` -/

/-- `callGas`: under EIP-150 the callee gets at most all but one 64th of the gas left after `base`, in
`uint64`; else the requested gas, which must fit in 64 bits. -/
def callGas (isEip150 : Bool) (availableGas base : ℕ) (callCost : BitVec 256) : Except VmError ℕ :=
  let availableGas := (availableGas + (u64 - base)) % u64
  let gas := availableGas - availableGas / 64
  -- a request beyond 64 bits is more than the 63/64ths anyway
  if isEip150 ∧ (u64 ≤ callCost.toNat ∨ gas < callCost.toNat) then .ok gas
  else if u64 ≤ callCost.toNat then .error .errGasUintOverflow
  else .ok callCost.toNat

/-- Under EIP-150 the gas `callGas` returns is at most the 63/64ths of `availableGas - base` in `uint64`. -/
theorem callGas_le {availableGas base : ℕ} {callCost : BitVec 256} {gas : ℕ}
    (h : callGas true availableGas base callCost = .ok gas) :
    gas ≤ (availableGas + (u64 - base)) % u64 - (availableGas + (u64 - base)) % u64 / 64 := by
  unfold callGas at h
  dsimp only at h
  split at h
  · cases h
    exact le_rfl
  · rename_i hcap
    split at h
    · cases h
    · cases h
      simp only [true_and, not_or, Nat.not_le, Nat.not_lt] at hcap
      exact hcap.2

/-! ### The gas functions of the calls -/

/-- The chain rules the call gas functions read. -/
structure ChainRules where
  isSpuriousDragon : Bool
  isTangerineWhistle : Bool
  deriving DecidableEq, Repr

/-- The context the call gas functions read and write: the rules, the state and `callGasTemp`. -/
structure EvmCtx (σ : Type) where
  rules : ChainRules
  state : σ
  callGasTemp : ℕ

/-- The reads and writes of the `IntraBlockState` the gas functions make, and `types.Address(x.Bytes20())`. -/
structure StateOps (σ Addr : Type) where
  empty : σ → Addr → Bool × σ
  exist : σ → Addr → Bool × σ
  addressInAccessList : σ → Addr → Bool
  addAddressToAccessList : σ → Addr → σ
  toAddress : BitVec 256 → Addr

/-- `params.CallValueTransferGas`. -/
def callValueTransferGas : ℕ := 9000

/-- `params.CallNewAccountGas`. -/
def callNewAccountGas : ℕ := 25000

/-- `params.ColdAccountAccessCostEIP2929`. -/
def coldAccountAccessCostEIP2929 : ℕ := 2600

/-- `params.WarmStorageReadCostEIP2929`. -/
def warmStorageReadCostEIP2929 : ℕ := 100

variable {σ Addr : Type}

/-- The body shared by the call gas functions: the surcharge (read from the scope, with the state it leaves),
the expansion fee, and the gas `callGas` keeps for the callee in `callGasTemp`. -/
def callVariantGas (surcharge : Scope (EvmCtx σ) → ℕ × σ) : GasFunc (EvmCtx σ) := fun sc memorySize => do
  let (gas, state) := surcharge sc
  let sc := { sc with ctx := { sc.ctx with state } }
  let (memoryGas, mem) ← memoryGasCost sc.mem memorySize
  let sc := { sc with mem }
  let (gas, overflow) := safeAdd gas memoryGas
  if overflow then throw .errGasUintOverflow
  let callGasTemp ← callGas sc.ctx.rules.isTangerineWhistle sc.gas gas (back sc.stack 0)
  let sc := { sc with ctx := { sc.ctx with callGasTemp } }
  let (gas, overflow) := safeAdd gas callGasTemp
  if overflow then throw .errGasUintOverflow
  return (gas, sc)

/-- The surcharge of `gasCall`: a new account after SpuriousDragon only when value moves to an empty one,
before it whenever the address does not exist, and the value transfer. -/
def callSurcharge (ops : StateOps σ Addr) (sc : Scope (EvmCtx σ)) : ℕ × σ :=
  let transfersValue := back sc.stack 2 ≠ 0
  let address := ops.toAddress (back sc.stack 1)
  let (newAccount, state) :=
    if sc.ctx.rules.isSpuriousDragon then
      if transfersValue then ops.empty sc.ctx.state address else (false, sc.ctx.state)
    else
      let (exist, state) := ops.exist sc.ctx.state address
      (!exist, state)
  ((if newAccount then callNewAccountGas else 0) + (if transfersValue then callValueTransferGas else 0), state)

/-- `gasCall`. -/
def gasCall (ops : StateOps σ Addr) : GasFunc (EvmCtx σ) := callVariantGas (callSurcharge ops)

/-- `gasCallCode`: the value transfer only. -/
def gasCallCode : GasFunc (EvmCtx σ) :=
  callVariantGas fun sc => (if back sc.stack 2 ≠ 0 then callValueTransferGas else 0, sc.ctx.state)

/-- `gasDelegateCall`: no surcharge. -/
def gasDelegateCall : GasFunc (EvmCtx σ) := callVariantGas fun sc => (0, sc.ctx.state)

/-- `gasStaticCall`: no surcharge. -/
def gasStaticCall : GasFunc (EvmCtx σ) := callVariantGas fun sc => (0, sc.ctx.state)

/-- The dynamic gas function of each call instruction in the jump tables before Berlin. -/
def dynamicCallGas (ops : StateOps σ Addr) : OpCode → GasFunc (EvmCtx σ)
  | .call => gasCall ops
  | .callCode => gasCallCode
  | .delegateCall => gasDelegateCall
  | .staticCall => gasStaticCall

/-- The value and new-account surcharge of each call instruction. -/
def valueSurcharge (ops : StateOps σ Addr) : OpCode → Scope (EvmCtx σ) → ℕ
  | .call, sc => (callSurcharge ops sc).1
  | .callCode, sc => if back sc.stack 2 ≠ 0 then callValueTransferGas else 0
  | .delegateCall, _ => 0
  | .staticCall, _ => 0

/-- The fee `memoryGasCost` charges for the expansion, zero where it fails. -/
def expansionFee (mem : Memory) (memorySize : ℕ) : ℕ :=
  match memoryGasCost mem memorySize with
  | .ok (fee, _) => fee
  | .error _ => 0

/-- `makeCallVariantGasCallEIP2929`: a cold address is added to the access list and its surcharge is taken
from the contract before the old calculator runs, then given back and added to the cost. -/
def makeCallVariantGasCallEIP2929 (ops : StateOps σ Addr) (oldCalculator : GasFunc (EvmCtx σ)) :
    GasFunc (EvmCtx σ) := fun sc memorySize => do
  let addr := ops.toAddress (back sc.stack 1)
  let warmAccess := ops.addressInAccessList sc.ctx.state addr
  let coldCost := coldAccountAccessCostEIP2929 - warmStorageReadCostEIP2929
  let sc ← if warmAccess then pure sc else
    let sc := { sc with ctx := { sc.ctx with state := ops.addAddressToAccessList sc.ctx.state addr } }
    match useGas sc.gas coldCost with
    | none => throw .errOutOfGas
    | some gas => pure { sc with gas }
  let (gas, sc) ← oldCalculator sc memorySize
  if warmAccess then return (gas, sc)
  return ((gas + coldCost) % u64, { sc with gas := (sc.gas + coldCost) % u64 })

/-! ### The budget -/

/-- What a run of `callVariantGas` that does not fail computes: the expansion fee, a sum without wrap, and
`callGas` at the gas of the contract. -/
theorem callVariantGas_eq_ok {surcharge : Scope (EvmCtx σ) → ℕ × σ} {sc sc' : Scope (EvmCtx σ)}
    {memorySize c : ℕ} (h : callVariantGas surcharge sc memorySize = .ok (c, sc')) :
    ∃ fee mem, memoryGasCost sc.mem memorySize = .ok (fee, mem) ∧ (surcharge sc).1 + fee < u64 ∧
      callGas sc.ctx.rules.isTangerineWhistle sc.gas ((surcharge sc).1 + fee) (back sc.stack 0) =
        .ok sc'.ctx.callGasTemp ∧
      c = (surcharge sc).1 + fee + sc'.ctx.callGasTemp ∧ c < u64 ∧ sc'.mem = mem ∧ sc'.gas = sc.gas := by
  unfold callVariantGas at h
  simp only [bind, Except.bind] at h
  -- the expansion fee
  cases hmem : memoryGasCost sc.mem memorySize with
  | error e => simp [hmem] at h
  | ok r =>
    obtain ⟨fee, mem⟩ := r
    simp only [hmem] at h
    -- the first sum, and `callGas`
    cases hsum : safeAdd (surcharge sc).1 fee with
    | mk gas overflow =>
      cases overflow with
      | true => simp [hsum] at h
      | false =>
        obtain ⟨rfl, hlt⟩ := safeAdd_of_not_overflow hsum
        simp only [hsum, Bool.false_eq_true, ↓reduceIte] at h
        cases hgas : callGas sc.ctx.rules.isTangerineWhistle sc.gas ((surcharge sc).1 + fee) (back sc.stack 0) with
        | error e => simp [hgas] at h
        | ok callGasTemp =>
          simp only [hgas] at h
          cases hsum' : safeAdd ((surcharge sc).1 + fee) callGasTemp with
          | mk total overflow =>
            cases overflow with
            | true => simp [hsum'] at h
            | false =>
              obtain ⟨rfl, hlt'⟩ := safeAdd_of_not_overflow hsum'
              simp only [hsum', Bool.false_eq_true, ↓reduceIte, pure, Except.pure, Except.ok.injEq,
                Prod.mk.injEq] at h
              obtain ⟨rfl, rfl⟩ := h
              exact ⟨fee, mem, rfl, hlt, hgas, rfl, hlt', rfl, rfl⟩

theorem expansionFee_of_eq {mem mem' : Memory} {memorySize fee : ℕ}
    (h : memoryGasCost mem memorySize = .ok (fee, mem')) : expansionFee mem memorySize = fee := by
  rw [expansionFee, h]

/-- The 63/64ths bound: a cost `UseGas` accepts covers the surcharge, so `callGas` sees the exact remainder. -/
theorem callVariantGas_within_budget {surcharge : Scope (EvmCtx σ) → ℕ × σ} {sc sc' : Scope (EvmCtx σ)}
    {memorySize c : ℕ} (htw : sc.ctx.rules.isTangerineWhistle = true) (hgas : sc.gas < u64)
    (h : callVariantGas surcharge sc memorySize = .ok (c, sc')) (huse : useGas sc.gas c ≠ none) :
    sc'.ctx.callGasTemp ≤ (sc.gas - ((surcharge sc).1 + expansionFee sc.mem memorySize)) -
        (sc.gas - ((surcharge sc).1 + expansionFee sc.mem memorySize)) / 64 ∧
      c = (surcharge sc).1 + expansionFee sc.mem memorySize + sc'.ctx.callGasTemp ∧ c < u64 := by
  obtain ⟨fee, mem, hmem, -, hcall, rfl, hlt, -, -⟩ := callVariantGas_eq_ok h
  rw [expansionFee_of_eq hmem]
  have hle := useGas_ne_none.1 huse
  rw [htw] at hcall
  have hbound := callGas_le hcall
  -- `base ≤ gas`, so the `uint64` difference in `callGas` does not wrap
  have hexact : (sc.gas + (u64 - ((surcharge sc).1 + fee))) % u64 = sc.gas - ((surcharge sc).1 + fee) := by
    unfold u64 at *
    omega
  rw [hexact] at hbound
  exact ⟨hbound, rfl, hlt⟩

theorem dynamicCallGas_eq_callVariantGas (ops : StateOps σ Addr) (op : OpCode) :
    dynamicCallGas ops op = callVariantGas fun sc => (valueSurcharge ops op sc, (match op with
      | .call => (callSurcharge ops sc).2
      | _ => sc.ctx.state)) := by
  cases op <;> rfl

/-- For every call instruction under TangerineWhistle, every scope and every memory size: when the dynamic gas
function returns `c` and `UseGas(c)` succeeds, the callee's gas `callGasTemp` is at most the all-but-one-64th of
what remains after the memory and value surcharge, and `c` is their sum without a `uint64` wrap. -/
theorem dynamicCallGas_within_budget (ops : StateOps σ Addr) (op : OpCode) (sc : Scope (EvmCtx σ))
    (memorySize : ℕ) {c : ℕ} {sc' : Scope (EvmCtx σ)} (htw : sc.ctx.rules.isTangerineWhistle = true)
    (hgas : sc.gas < u64) (h : dynamicCallGas ops op sc memorySize = .ok (c, sc')) (huse : useGas sc.gas c ≠ none) :
    sc'.ctx.callGasTemp ≤ (sc.gas - (valueSurcharge ops op sc + expansionFee sc.mem memorySize)) -
        (sc.gas - (valueSurcharge ops op sc + expansionFee sc.mem memorySize)) / 64 ∧
      c = valueSurcharge ops op sc + expansionFee sc.mem memorySize + sc'.ctx.callGasTemp ∧ c < u64 := by
  rw [dynamicCallGas_eq_callVariantGas] at h
  exact callVariantGas_within_budget htw hgas h huse

/-- A state where every address is empty and warm; addresses are the low bits of the word. -/
def exampleOps : StateOps Unit ℕ :=
  ⟨fun _ _ => (true, ()), fun _ _ => (false, ()), fun _ _ => true, fun s _ => s, BitVec.toNat⟩

/-- A `CALL` with 100000 gas left that asks for all the gas and moves 5 wei to the empty account 1. -/
def valueCallScope : Scope (EvmCtx Unit) :=
  ⟨100000, [BitVec.allOnes 256, 1, 5, 0, 0, 0, 0], ⟨[], 0⟩, ⟨⟨true, true⟩, (), 0⟩⟩

/-- The call pays 34000 for the new account and the value, and the callee gets 64969, the 63/64ths of the
66000 left. -/
theorem dynamicCallGas_within_budget_valueCall :
    ∃ sc', dynamicCallGas exampleOps .call valueCallScope 0 = .ok (98969, sc') ∧ sc'.ctx.callGasTemp = 64969 ∧
      sc'.ctx.callGasTemp ≤ (100000 - 34000) - (100000 - 34000) / 64 := by
  obtain ⟨sc', h, hcgt⟩ : ∃ sc', dynamicCallGas exampleOps .call valueCallScope 0 = .ok (98969, sc') ∧
      sc'.ctx.callGasTemp = 64969 := ⟨_, rfl, rfl⟩
  have hbound := (dynamicCallGas_within_budget exampleOps .call valueCallScope 0 rfl (by decide) h (by decide)).1
  have hbase : valueSurcharge exampleOps .call valueCallScope + expansionFee valueCallScope.mem 0 = 34000 := by
    decide
  rw [hbase] at hbound
  exact ⟨sc', h, hcgt, hbound⟩

end AmazeChain.Vm
