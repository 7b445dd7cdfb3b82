import AmazeChain.Vm.Gas
import AmazeChain.Lib.BigEndian

/-!
# The interpreter's loop and the price of the memory

One iteration of `EVMInterpreter.Run` (`internal/vm/interpreter.go`): the operation of the jump table at the
program counter (`STOP` past the code), the stack checks, the constant gas, the memory size of the instruction
in whole words (`SafeMul(ToWordSize(memSize), 32)`), its dynamic gas, `UseGas`, the expansion of the memory and
the instruction itself.  `runLoop n` is the loop after `n` iterations that did not end it and `run` the loop to
its end, both with the expansion fees charged on the way; `Run` starts on an empty stack and a `Reset` memory.
The cancellation check every thousand steps and the tracer are left out.

The jump table is a parameter.  What `Run` needs of it is `KeepsMemoryAccount`: each dynamic gas function leaves
the memory `memoryGasCost` leaves at the size `Run` gives it (every gas function of `gas_table.go` and
`operations_acl.go` with a memory size calls `memoryGasCost(mem, memorySize)` once, and the others never see
the memory), and no instruction resizes the memory or touches `lastGasCost` (only `Run` calls `Resize`).  The
call gas functions of `Vm.Gas` with their EIP-2929 wrapper, `gasMStore` and the instructions `STOP`, `PUSH1`,
`MSTORE` and `opUndefined` keep it here; `Vm.JumpTable` shows it of every entry of every jump table.

Then at the start of every iteration the memory is `Charged` and the expansion fees charged so far are
`memoryFee` of its word count, so `memoryGasCost` never wraps on it and charges the difference of `memoryFee`
between the new and the old word count; a whole frame charges `memoryFee` of the word count it ends with
(`run_chargesMemoryFee`).
-/

namespace AmazeChain.Vm

open EVM (VmError)
open Txspool (u64)

variable {S : Type}

/-- What an instruction's `execute` returns: no error, with the program counter it leaves (`Run` adds one, in
`uint64`), or an error that ends the loop, with the instruction's result; `none` is a panic. -/
inductive ExecResult (S : Type) where
  | next (pc : ℕ) (sc : Scope S)
  | halt (res : List UInt8) (err : VmError)

/-- An entry of the jump table: the fields `Run` reads.  `execute` sees the code of the contract. -/
structure Operation (S : Type) where
  execute : List UInt8 → ℕ → Scope S → Option (ExecResult S)
  constantGas : ℕ
  dynamicGas : Option (GasFunc S)
  numPop : ℕ
  maxStack : ℕ
  memorySize : Option (List (BitVec 256) → ℕ × Bool)

/-- `math.SafeMul` on `uint64`: the wrapped product and whether it wrapped. -/
def safeMul (x y : ℕ) : ℕ × Bool := ((x * y) % u64, decide (u64 ≤ x * y))

/-- The memory size `Run` hands the dynamic gas function: `0` without a size function, else the size in whole
words, in `uint64`. -/
def runMemorySize (operation : Operation S) (stack : List (BitVec 256)) : Except VmError ℕ :=
  match operation.memorySize with
  | none => .ok 0
  | some memorySize =>
    let (memSize, overflow) := memorySize stack
    if overflow then .error .errGasUintOverflow
    else
      -- memory is expanded in words of 32 bytes; gas is also calculated in words
      let (memorySize, overflow) := safeMul (toWordSize memSize) 32
      if overflow then .error .errGasUintOverflow else .ok memorySize

/-- The dynamic part of an iteration: the dynamic gas at the memory size, `UseGas` of it, and the expansion of
the memory; any failure is `ErrOutOfGas` but the size's own overflow.  The second component is the expansion
fee the dynamic gas charged, `expansionFee` of the memory before it. -/
def chargeDynamic (operation : Operation S) (sc : Scope S) : Except VmError (Scope S × ℕ) :=
  match operation.dynamicGas with
  | none => .ok (sc, 0)
  | some dynamicGas => do
    let memorySize ← runMemorySize operation sc.stack
    let fee := expansionFee sc.mem memorySize
    match dynamicGas sc memorySize with
    | .error _ => throw .errOutOfGas
    | .ok (dynamicCost, sc) =>
      match useGas sc.gas dynamicCost with
      | none => throw .errOutOfGas
      | some gas =>
        let sc := { sc with gas }
        pure (if memorySize > 0 then { sc with mem := sc.mem.resize memorySize } else sc, fee)

/-- How an iteration ends: the next one at a program counter, or the end of the loop with its result and error
(`errStopToken` cleared); either way with the memory it leaves and the expansion fee it charged.  An iteration
that fails before the expansion leaves the memory it started with: Go's `memoryGasCost` may have recorded the new
fee already, but the frame is over and `Run` resets the memory on its next use. -/
inductive StepResult (S : Type) where
  | next (pc : ℕ) (sc : Scope S) (fee : ℕ)
  | halt (res : List UInt8) (err : Option VmError) (mem : Memory) (fee : ℕ)

namespace StepResult

/-- The memory an iteration leaves. -/
def memory : StepResult S → Memory
  | next _ sc _ => sc.mem
  | halt _ _ mem _ => mem

/-- The expansion fee an iteration charged. -/
def fee : StepResult S → ℕ
  | next _ _ fee => fee
  | halt _ _ _ fee => fee

end StepResult

/-- One iteration of `Run`'s loop; `none` is a panic of the instruction. -/
def step (jt : UInt8 → Operation S) (code : List UInt8) (pc : ℕ) (sc : Scope S) : Option (StepResult S) :=
  let operation := jt (code.getD pc 0)
  let sLen := sc.stack.length
  if sLen < operation.numPop then some (.halt [] (some (.errStackUnderflow sLen operation.numPop)) sc.mem 0)
  else if sLen > operation.maxStack then
    some (.halt [] (some (.errStackOverflow sLen operation.maxStack)) sc.mem 0)
  else
    match useGas sc.gas operation.constantGas with
    | none => some (.halt [] (some .errOutOfGas) sc.mem 0)
    | some gas =>
      match chargeDynamic operation { sc with gas } with
      | .error e => some (.halt [] (some e) sc.mem 0)
      | .ok (sc, fee) => (operation.execute code pc sc).map fun
        | .next pc sc => .next ((pc + 1) % u64) sc fee
        | .halt res err => .halt res (if err = .errStopToken then none else some err) sc.mem fee

/-- `n` iterations of the loop that do not end it, from a program counter and a scope, adding up the expansion
fees charged: the state at the start of the next iteration. -/
def runLoop (jt : UInt8 → Operation S) (code : List UInt8) : ℕ → ℕ → Scope S → ℕ → Option (ℕ × Scope S × ℕ)
  | 0, pc, sc, total => some (pc, sc, total)
  | n + 1, pc, sc, total =>
    match step jt code pc sc with
    | some (.next pc sc fee) => runLoop jt code n pc sc (total + fee)
    | _ => none

/-- The loop to its end within `fuel` iterations, from a program counter, a scope and the fees charged so far:
the result, the error, the memory left and all the expansion fees charged; `none` when the fuel runs out or an
instruction panics. -/
def run (jt : UInt8 → Operation S) (code : List UInt8) :
    ℕ → ℕ → Scope S → ℕ → Option (List UInt8 × Option VmError × Memory × ℕ)
  | 0, _, _, _ => none
  | fuel + 1, pc, sc, total =>
    match step jt code pc sc with
    | some (.next pc sc fee) => run jt code fuel pc sc (total + fee)
    | some (.halt res err mem fee) => some (res, err, mem, total + fee)
    | none => none

/-! ### What the jump table must do with the memory -/

/-- A dynamic gas function that, asked for the memory size `n`, leaves the memory `memoryGasCost` leaves. -/
def ChargesExpansionAt (f : GasFunc S) (n : ℕ) : Prop :=
  ∀ sc c sc', f sc n = .ok (c, sc') → ∃ fee, memoryGasCost sc.mem n = .ok (fee, sc'.mem)

/-- An entry of the jump table that prices the memory as `Run` expects and does not resize it itself. -/
structure Operation.KeepsMemoryAccount (operation : Operation S) : Prop where
  charges : ∀ f, operation.dynamicGas = some f → ∀ n, (operation.memorySize.isSome ∨ n = 0) →
    ChargesExpansionAt f n
  execute : ∀ code pc sc pc' sc', operation.execute code pc sc = some (.next pc' sc') →
    sc'.mem.len = sc.mem.len ∧ sc'.mem.lastGasCost = sc.mem.lastGasCost

theorem Memory.Charged.of_eq {m m' : Memory} (hm : m.Charged) (hlen : m'.len = m.len)
    (hcost : m'.lastGasCost = m.lastGasCost) : m'.Charged :=
  ⟨hlen ▸ hm.words, hlen ▸ hm.bound, by rw [hcost, hlen, hm.cost]⟩

theorem runMemorySize_words {operation : Operation S} {stack : List (BitVec 256)} {n : ℕ}
    (h : runMemorySize operation stack = .ok n) : n % 32 = 0 ∧ (operation.memorySize.isSome ∨ n = 0) := by
  unfold runMemorySize at h
  split at h
  · cases h
    exact ⟨rfl, .inr rfl⟩
  · rename_i hsome
    dsimp only at h
    split at h
    · cases h
    · unfold safeMul at h
      split at h
      · cases h
      · cases h
        refine ⟨?_, .inl (by rw [hsome]; rfl)⟩
        unfold u64
        omega

/-- What the dynamic part of an iteration does to a charged memory: it stays charged and does not shrink, and
the fee charged is the difference of `memoryFee` between the word counts. -/
theorem chargeDynamic_charged {operation : Operation S} (hop : operation.KeepsMemoryAccount) {sc sc' : Scope S}
    {fee : ℕ} (h : chargeDynamic operation sc = .ok (sc', fee)) (hm : sc.mem.Charged) :
    sc'.mem.Charged ∧ sc.mem.len ≤ sc'.mem.len ∧
      fee = memoryFee (sc'.mem.len / 32) - memoryFee (sc.mem.len / 32) := by
  unfold chargeDynamic at h
  split at h
  · cases h
    exact ⟨hm, le_rfl, by rw [Nat.sub_self]⟩
  · rename_i dynamicGas hdyn
    simp only [bind, Except.bind] at h
    cases hsize : runMemorySize operation sc.stack with
    | error e => simp [hsize] at h
    | ok n =>
      simp only [hsize] at h
      obtain ⟨hn32, hnsome⟩ := runMemorySize_words hsize
      split at h
      · cases h
      · rename_i cost sc₁ hgas
        split at h
        · cases h
        · rename_i gas _
          simp only [pure, Except.pure, Except.ok.injEq, Prod.mk.injEq] at h
          obtain ⟨rfl, rfl⟩ := h
          -- the gas function left the memory `memoryGasCost` leaves
          obtain ⟨fee₀, hcost⟩ := hop.charges dynamicGas hdyn n hnsome sc cost sc₁ hgas
          have hn : n ≤ maxMemorySize := by
            by_contra hgt
            rw [memoryGasCost_of_gt _ (Nat.lt_of_not_le hgt)] at hcost
            cases hcost
          rw [expansionFee_of_eq hcost]
          split
          · exact Memory.Charged.expand hm hn32 hn hcost
          · -- a size of zero prices nothing and leaves the memory
            have h0 : n = 0 := by omega
            subst h0
            rw [memoryGasCost, if_pos rfl, Except.ok.injEq, Prod.mk.injEq] at hcost
            obtain ⟨rfl, hmem⟩ := hcost
            have hmem' : sc₁.mem = sc.mem := hmem.symm
            refine ⟨hmem' ▸ hm, by rw [hmem'], by rw [hmem', Nat.sub_self]⟩

/-- One iteration keeps the memory charged and does not shrink it, and the fee charged is the difference of
`memoryFee` between the word counts. -/
theorem step_charged {jt : UInt8 → Operation S} (hjt : ∀ op, (jt op).KeepsMemoryAccount) {code : List UInt8}
    {pc : ℕ} {sc : Scope S} {r : StepResult S} (h : step jt code pc sc = some r) (hm : sc.mem.Charged) :
    r.memory.Charged ∧ sc.mem.len ≤ r.memory.len ∧
      r.fee = memoryFee (r.memory.len / 32) - memoryFee (sc.mem.len / 32) := by
  -- an iteration that ends before the expansion leaves the memory as it was
  have hstay : ∀ res err, (StepResult.halt (S := S) res err sc.mem 0).memory.Charged ∧
      sc.mem.len ≤ (StepResult.halt (S := S) res err sc.mem 0).memory.len ∧
      (StepResult.halt (S := S) res err sc.mem 0).fee =
        memoryFee ((StepResult.halt (S := S) res err sc.mem 0).memory.len / 32) - memoryFee (sc.mem.len / 32) :=
    fun _ _ => ⟨hm, le_rfl, (Nat.sub_self (memoryFee (sc.mem.len / 32))).symm⟩
  unfold step at h
  dsimp only at h
  -- the stack checks, then the constant gas
  split_ifs at h with hpop hpush
  · cases h
    exact hstay _ _
  · cases h
    exact hstay _ _
  split at h
  · cases h
    exact hstay _ _
  · rename_i gas _
    split at h
    · cases h
      exact hstay _ _
    · rename_i sc₁ fee₁ hcharge
      obtain ⟨hm₁, hle₁, hfee₁⟩ := chargeDynamic_charged (hjt _) hcharge hm
      obtain ⟨r', hexec, rfl⟩ := Option.map_eq_some_iff.1 h
      cases r' with
      | halt res err => exact ⟨hm₁, hle₁, hfee₁⟩
      | next pc₂ sc₂ =>
        -- the instruction leaves the size and the fee of the memory alone
        obtain ⟨hlen, hcost⟩ := (hjt _).execute code pc sc₁ pc₂ sc₂ hexec
        exact ⟨hm₁.of_eq hlen hcost, hlen ▸ hle₁, by rw [StepResult.memory, hlen]; exact hfee₁⟩

/-- The fees telescope: a total that is the fee of the old word count, plus the difference to the new one, is
the fee of the new one. -/
theorem add_fee_eq_memoryFee {l l' total fee : ℕ} (hle : l ≤ l') (htotal : total = memoryFee (l / 32))
    (hfee : fee = memoryFee (l' / 32) - memoryFee (l / 32)) : total + fee = memoryFee (l' / 32) := by
  have hmono : memoryFee (l / 32) ≤ memoryFee (l' / 32) := memoryFee_mono (Nat.div_le_div_right hle)
  omega

/-- Along the loop the memory stays charged, and the fees charged add up to `memoryFee` of its word count. -/
theorem runLoop_charged_of {jt : UInt8 → Operation S} (hjt : ∀ op, (jt op).KeepsMemoryAccount)
    {code : List UInt8} : ∀ {n pc pc' : ℕ} {sc sc' : Scope S} {total total' : ℕ},
    sc.mem.Charged → total = memoryFee (sc.mem.len / 32) →
    runLoop jt code n pc sc total = some (pc', sc', total') →
    sc'.mem.Charged ∧ total' = memoryFee (sc'.mem.len / 32)
  | 0, _, _, _, _, _, _, hm, htotal, h => by
    cases h
    exact ⟨hm, htotal⟩
  | n + 1, pc, pc', sc, sc', total, total', hm, htotal, h => by
    unfold runLoop at h
    split at h
    · rename_i pc₁ sc₁ fee hstep
      obtain ⟨hm₁, hle, hfee⟩ := step_charged hjt hstep hm
      exact runLoop_charged_of hjt hm₁ (add_fee_eq_memoryFee hle htotal hfee) h
    · cases h

/-- To the end of the frame the fees charged add up to `memoryFee` of the word count of the memory it leaves. -/
theorem run_charged_of {jt : UInt8 → Operation S} (hjt : ∀ op, (jt op).KeepsMemoryAccount)
    {code : List UInt8} : ∀ {fuel pc : ℕ} {sc : Scope S} {total : ℕ} {res : List UInt8} {err : Option VmError}
    {mem : Memory} {total' : ℕ}, sc.mem.Charged → total = memoryFee (sc.mem.len / 32) →
    run jt code fuel pc sc total = some (res, err, mem, total') → mem.Charged ∧ total' = memoryFee (mem.len / 32)
  | 0, _, _, _, _, _, _, _, _, _, h => by cases h
  | fuel + 1, pc, sc, total, res, err, mem, total', hm, htotal, h => by
    unfold run at h
    split at h
    · rename_i pc₁ sc₁ fee hstep
      obtain ⟨hm₁, hle, hfee⟩ := step_charged hjt hstep hm
      exact run_charged_of hjt hm₁ (add_fee_eq_memoryFee hle htotal hfee) h
    · rename_i res₁ err₁ mem₁ fee hstep
      obtain ⟨hm₁, hle, hfee⟩ := step_charged hjt hstep hm
      cases h
      exact ⟨hm₁, add_fee_eq_memoryFee hle htotal hfee⟩
    · cases h

/-! ### Instructions that keep the account -/

/-- `Memory.Set32`: the 32 bytes at `offset` become `val`, big-endian.  A store too short panics, also when
`offset + 32` wraps in `uint64`, as the slice then fails. -/
def Memory.set32 (m : Memory) (offset : ℕ) (val : BitVec 256) : Option Memory :=
  if offset + 32 > m.len then none
  else some { m with store := m.store.take offset ++ BigEndian.ofNat val.toNat 32 ++ m.store.drop (offset + 32) }

theorem Memory.set32_eq_some {m m' : Memory} {offset : ℕ} {val : BitVec 256} (h : m.set32 offset val = some m') :
    m'.len = m.len ∧ m'.lastGasCost = m.lastGasCost := by
  unfold Memory.set32 at h
  split at h
  · cases h
  · rename_i hle
    cases h
    refine ⟨?_, rfl⟩
    simp only [Memory.len, List.length_append, List.length_take, List.length_drop, BigEndian.length_ofNat]
    simp only [Memory.len] at hle
    omega

/-- `calcMemSize64WithUint`: the end of `length64` bytes from `off`, and whether it does not fit in `uint64`. -/
def calcMemSize64WithUint (off : BitVec 256) (length64 : ℕ) : ℕ × Bool :=
  -- if length is zero, memsize is always zero, regardless of offset
  if length64 = 0 then (0, false)
  else if u64 ≤ off.toNat then (0, true)
  else
    let val := (off.toNat + length64) % u64
    (val, decide (val < off.toNat))

/-- `memoryMStore`. -/
def memoryMStore (stack : List (BitVec 256)) : ℕ × Bool := calcMemSize64WithUint (back stack 0) 32

/-- `pureMemoryGascost`: the expansion fee and nothing else. -/
def pureMemoryGascost : GasFunc S := fun sc memorySize => do
  let (fee, mem) ← memoryGasCost sc.mem memorySize
  return (fee, { sc with mem })

/-- `gasMStore`. -/
def gasMStore : GasFunc S := pureMemoryGascost

/-- `opStop`. -/
def opStop (_ : List UInt8) (_ : ℕ) (_ : Scope S) : Option (ExecResult S) := some (.halt [] .errStopToken)

/-- `opUndefined`: `ErrInvalidOpCode` with the byte at the program counter. -/
def opUndefined (code : List UInt8) (pc : ℕ) (_ : Scope S) : Option (ExecResult S) :=
  some (.halt [] (.errInvalidOpCode (code.getD pc 0)))

/-- `opPush1`: the next byte of the code, zero past its end; the program counter moves onto it. -/
def opPush1 (code : List UInt8) (pc : ℕ) (sc : Scope S) : Option (ExecResult S) :=
  let pc := pc + 1
  let integer : BitVec 256 := if pc < code.length then BitVec.ofNat 256 (code.getD pc 0).toNat else 0
  some (.next pc { sc with stack := integer :: sc.stack })

/-- `opMstore`: the word under the offset is stored at the offset's low 64 bits; popping an empty stack panics. -/
def opMstore (_ : List UInt8) (pc : ℕ) (sc : Scope S) : Option (ExecResult S) :=
  match sc.stack with
  | mStart :: val :: stack => (sc.mem.set32 (mStart.toNat % u64) val).map fun mem => .next pc { sc with stack, mem }
  | _ => none

/-- `params.StackLimit`. -/
def stackLimit : ℕ := 1024

/-- `maxStack`: the largest stack an instruction that pops `pop` and pushes `push` items may start on. -/
def maxStack (pop push : ℕ) : ℕ := stackLimit + pop - push

/-- `GasFastestStep`. -/
def gasFastestStep : ℕ := 3

/-- The entry of `STOP` in the jump tables. -/
def stopOperation : Operation S :=
  { execute := opStop, constantGas := 0, dynamicGas := none, numPop := 0, maxStack := maxStack 0 0,
    memorySize := none }

/-- The entry of `MSTORE` in the jump tables. -/
def mstoreOperation : Operation S :=
  { execute := opMstore, constantGas := gasFastestStep, dynamicGas := some gasMStore, numPop := 2,
    maxStack := maxStack 2 0, memorySize := some memoryMStore }

/-- The entry of `PUSH1` in the jump tables. -/
def push1Operation : Operation S :=
  { execute := opPush1, constantGas := gasFastestStep, dynamicGas := none, numPop := 0, maxStack := maxStack 0 1,
    memorySize := none }

/-- An unassigned slot, filled with `opUndefined` before `validateAndFillMaxStack`. -/
def undefinedOperation : Operation S :=
  { execute := opUndefined, constantGas := 0, dynamicGas := none, numPop := 0, maxStack := maxStack 0 0,
    memorySize := none }

theorem pureMemoryGascost_charges (n : ℕ) : ChargesExpansionAt (pureMemoryGascost (S := S)) n := by
  intro sc c sc' h
  unfold pureMemoryGascost at h
  simp only [bind, Except.bind] at h
  cases hmem : memoryGasCost sc.mem n with
  | error e => simp [hmem] at h
  | ok r =>
    obtain ⟨fee, mem⟩ := r
    simp only [hmem, pure, Except.pure, Except.ok.injEq, Prod.mk.injEq] at h
    obtain ⟨-, rfl⟩ := h
    exact ⟨fee, rfl⟩

theorem callVariantGas_charges {σ : Type} (surcharge : Scope (EvmCtx σ) → ℕ × σ) (n : ℕ) :
    ChargesExpansionAt (callVariantGas surcharge) n := by
  intro sc c sc' h
  obtain ⟨fee, mem, hmem, -, -, hc, -, hsc, -⟩ := callVariantGas_eq_ok h
  exact ⟨fee, hsc ▸ hmem⟩

/-- The EIP-2929 wrapper keeps what the old calculator does with the memory: it only moves gas and the access
list. -/
theorem makeCallVariantGasCallEIP2929_charges {σ Addr : Type} (ops : StateOps σ Addr)
    {oldCalculator : GasFunc (EvmCtx σ)} {n : ℕ} (hold : ChargesExpansionAt oldCalculator n) :
    ChargesExpansionAt (makeCallVariantGasCallEIP2929 ops oldCalculator) n := by
  intro sc c sc' h
  unfold makeCallVariantGasCallEIP2929 at h
  dsimp only at h
  split at h
  · -- a warm address: the old calculator alone
    simp only [bind, Except.bind, pure, Except.pure] at h
    split at h
    · cases h
    · rename_i r hcalc
      obtain ⟨c₀, sc₀⟩ := r
      simp only [Except.ok.injEq, Prod.mk.injEq] at h
      obtain ⟨rfl, rfl⟩ := h
      exact hold _ _ _ hcalc
  · -- a cold one: the surcharge leaves the gas first, never the memory
    split at h
    · cases h
    · simp only [bind, Except.bind, pure, Except.pure] at h
      split at h
      · cases h
      · rename_i r hcalc
        simp only [Except.ok.injEq, Prod.mk.injEq] at h
        obtain ⟨-, rfl⟩ := h
        obtain ⟨fee, hfee⟩ := hold _ _ _ hcalc
        exact ⟨fee, hfee⟩

theorem Operation.KeepsMemoryAccount.of_noDynamicGas {operation : Operation S} (hdyn : operation.dynamicGas = none)
    (hexec : ∀ code pc sc pc' sc', operation.execute code pc sc = some (.next pc' sc') → sc'.mem = sc.mem) :
    operation.KeepsMemoryAccount where
  charges f hf := by simp [hdyn] at hf
  execute code pc sc pc' sc' h := by
    rw [hexec code pc sc pc' sc' h]
    exact ⟨rfl, rfl⟩

theorem stopOperation_keepsMemoryAccount : (stopOperation (S := S)).KeepsMemoryAccount :=
  .of_noDynamicGas rfl fun _ _ _ _ _ h => by cases h

theorem undefinedOperation_keepsMemoryAccount : (undefinedOperation (S := S)).KeepsMemoryAccount :=
  .of_noDynamicGas rfl fun _ _ _ _ _ h => by cases h

theorem push1Operation_keepsMemoryAccount : (push1Operation (S := S)).KeepsMemoryAccount :=
  .of_noDynamicGas rfl fun _ _ _ _ _ h => by
    cases h
    rfl

theorem mstoreOperation_keepsMemoryAccount : (mstoreOperation (S := S)).KeepsMemoryAccount where
  charges f hf n _ := by
    cases hf
    exact pureMemoryGascost_charges n
  execute code pc sc pc' sc' h := by
    change opMstore code pc sc = _ at h
    unfold opMstore at h
    split at h
    · obtain ⟨mem, hset, hnext⟩ := Option.map_eq_some_iff.1 h
      cases hnext
      exact Memory.set32_eq_some hset
    · cases h

/-- A jump table of `STOP`, `MSTORE` and `PUSH1`, every other slot unassigned. -/
def mstoreJumpTable (op : UInt8) : Operation S :=
  if op = 0x00 then stopOperation
  else if op = 0x52 then mstoreOperation
  else if op = 0x60 then push1Operation
  else undefinedOperation

/-- The code `PUSH1 0x2a PUSH1 0x40 MSTORE STOP`. -/
def mstoreCode : List UInt8 := [0x60, 0x2a, 0x60, 0x40, 0x52, 0x00]

/-- A frame with gas for it. -/
def mstoreScope : Scope Unit := { gas := 100, stack := [], mem := ⟨[], 0⟩, ctx := () }

/-- In every run of the loop from a reset memory, at the start of each iteration the memory holds whole words,
its `lastGasCost` and the expansion fees charged so far are `memoryFee` of its word count, and `memoryGasCost`
on it charges, without a wrap, the difference of `memoryFee` up to `0x1FFFFFFFE0` bytes and fails above; the fees
charged in a whole frame are `memoryFee` of the word count of the memory it ends with. -/
theorem run_chargesMemoryFee {jt : UInt8 → Operation S} (hjt : ∀ op, (jt op).KeepsMemoryAccount)
    (code : List UInt8) (sc : Scope S) :
    (∀ n pc' sc' total, runLoop jt code n 0 { sc with mem := sc.mem.reset } 0 = some (pc', sc', total) →
      sc'.mem.len % 32 = 0 ∧ sc'.mem.lastGasCost = memoryFee (sc'.mem.len / 32) ∧
      total = memoryFee (sc'.mem.len / 32) ∧
      (∀ newMemSize ≤ maxMemorySize, ∃ fee,
        memoryFee (sc'.mem.len / 32) + fee = memoryFee (max (sc'.mem.len / 32) (toWordSize newMemSize)) ∧
        memoryGasCost sc'.mem newMemSize =
          .ok (fee, { sc'.mem with lastGasCost := memoryFee (max (sc'.mem.len / 32) (toWordSize newMemSize)) })) ∧
      ∀ newMemSize > maxMemorySize, memoryGasCost sc'.mem newMemSize = .error .errGasUintOverflow) ∧
    ∀ fuel res err mem total, run jt code fuel 0 { sc with mem := sc.mem.reset } 0 = some (res, err, mem, total) →
      total = memoryFee (mem.len / 32) := by
  have hstart : ({ sc with mem := sc.mem.reset } : Scope S).mem.Charged := Memory.Charged.reset sc.mem
  have hzero : 0 = memoryFee (sc.mem.reset.len / 32) := by
    rw [Memory.len_reset]
    rfl
  constructor
  · intro n pc' sc' total h
    obtain ⟨hm, htotal⟩ := runLoop_charged_of hjt hstart hzero h
    refine ⟨hm.words, hm.cost, htotal, fun newMemSize hn => ?_, fun newMemSize hn => memoryGasCost_of_gt _ hn⟩
    -- the difference is a natural number: the word count does not fall under `max`
    have hmono : memoryFee (sc'.mem.len / 32) ≤ memoryFee (max (sc'.mem.len / 32) (toWordSize newMemSize)) :=
      memoryFee_mono (le_max_left _ _)
    exact ⟨_, Nat.add_sub_cancel' hmono, memoryGasCost_of_charged hm hn⟩
  · intro fuel res err mem total h
    exact (run_charged_of hjt hstart hzero h).2

/-- The frame stores `0x2a` in the third word and pays `memoryFee 3 = 9` for it. -/
example : run (mstoreJumpTable (S := Unit)) mstoreCode 4 0 mstoreScope 0 =
    some ([], none, ⟨List.replicate 95 0 ++ [0x2a], 9⟩, 9) := by
  decide

end AmazeChain.Vm
