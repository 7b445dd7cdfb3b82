import AmazeChain.Vm.Instructions

/-!
# The stack limit, and instructions that do not panic

Before each instruction `Run` checks that the stack holds the `numPop` items the instruction pops and at most its
`maxStack`, which `validateAndFillMaxStack` sets to `StackLimit + numPop - numPush`, and it expands the memory over
the size the instruction's memory function asks for.  What an entry of the jump table must do for these checks to
be enough is `StackSafe`: it keeps the account of the memory (`KeepsMemoryAccount`), has a dynamic gas function
whenever it has a memory size (what `validateAndFillMaxStack` panics on otherwise), leaves the stack to the
instruction, and its instruction, on what `Run` has made ready (`Ready`), does not panic and replaces the top
`numPop` items with `numPush`.

Then in every run from a stack of at most `1024` items, each iteration starts on at most `1024` items, does not
panic, and keeps the items under those its instruction pops; a run that returns nothing has run out of fuel
(`run_stack_safe`).  The run lemmas ask this only on the code that runs (`RunsOn`), which is what an instruction
that reads the code or a slice of the host needs (`Vm.RunSafety`).  The instructions of `Vm.Instructions`, `STOP`, `MSTORE`, `PUSH1` and the unassigned slot keep
the contract (`stackJumpTable_stackSafe`): the stack families by their shape (`StackShaped`), and `MLOAD`,
`MSTORE` and `MSTORE8` because the memory `Run` expanded covers the bytes they touch.
-/

namespace AmazeChain.Vm

open EVM (VmError)
open Txspool (u64)
open TwosComplement (toInt64)

variable {S : Type}

/-! ### The contract of an entry -/

/-- What `Run` has made sure of when an instruction runs: the items it pops are there, and its memory function
reports no overflow and a size within the largest memory that the memory covers. -/
def Operation.Ready (operation : Operation S) (sc : Scope S) : Prop :=
  operation.numPop ≤ sc.stack.length ∧
    ∀ memorySize, operation.memorySize = some memorySize →
      (memorySize sc.stack).2 = false ∧ (memorySize sc.stack).1 ≤ maxMemorySize ∧
        (memorySize sc.stack).1 ≤ sc.mem.len

/-- An entry of the jump table whose instruction pops `numPop` items and pushes `numPush`, for which the checks of
`Run` are enough. -/
structure Operation.StackSafe (operation : Operation S) (numPush : ℕ) : Prop where
  keepsMemoryAccount : operation.KeepsMemoryAccount
  dynamicGas_of_memorySize : operation.memorySize.isSome → operation.dynamicGas.isSome
  dynamicGas_stack : ∀ f, operation.dynamicGas = some f → ∀ sc n c sc', f sc n = .ok (c, sc') → sc'.stack = sc.stack
  numPush_le : numPush ≤ operation.numPop + stackLimit
  maxStack_eq : operation.maxStack = Vm.maxStack operation.numPop numPush
  execute : ∀ code pc sc, operation.Ready sc → ∃ r, operation.execute code pc sc = some r ∧
    ∀ pc' sc', r = .next pc' sc' → sc'.stack.length + operation.numPop = sc.stack.length + numPush ∧
      sc'.stack.drop numPush = sc.stack.drop operation.numPop

/-- An instruction that leaves the memory alone and, on `numPop` items or more, does not panic and replaces the top
`numPop` items with `numPush`. -/
structure StackShaped (execute : List UInt8 → ℕ → Scope S → Option (ExecResult S)) (numPop numPush : ℕ) :
    Prop where
  mem : ∀ code pc sc pc' sc', execute code pc sc = some (.next pc' sc') → sc'.mem = sc.mem
  shape : ∀ code pc (sc : Scope S), numPop ≤ sc.stack.length → ∃ r, execute code pc sc = some r ∧
    ∀ pc' sc', r = .next pc' sc' → sc'.stack.length + numPop = sc.stack.length + numPush ∧
      sc'.stack.drop numPush = sc.stack.drop numPop

/-- An entry with no dynamic gas and no memory keeps the contract when its instruction has its shape. -/
theorem stackOperation_stackSafe {execute : List UInt8 → ℕ → Scope S → Option (ExecResult S)}
    {constantGas numPop numPush : ℕ} (h : StackShaped execute numPop numPush) (hpush : numPush ≤ numPop + stackLimit) :
    (stackOperation execute constantGas numPop numPush).StackSafe numPush where
  keepsMemoryAccount := .of_noDynamicGas rfl h.mem
  dynamicGas_of_memorySize hsome := by cases hsome
  dynamicGas_stack f hf := by cases hf
  numPush_le := hpush
  maxStack_eq := rfl
  execute code pc sc hready := h.shape code pc sc hready.1

/-! ### The families of instructions have their shape -/

/-- An instruction that ends the frame has every shape. -/
theorem StackShaped.of_halt {execute : List UInt8 → ℕ → Scope S → Option (ExecResult S)} {numPop numPush : ℕ}
    (h : ∀ code pc sc, ∃ res err, execute code pc sc = some (.halt res err)) : StackShaped execute numPop numPush where
  mem code pc sc pc' sc' hexec := by
    obtain ⟨res, err, hhalt⟩ := h code pc sc
    rw [hhalt] at hexec
    cases hexec
  shape code pc sc _ := by
    obtain ⟨res, err, hhalt⟩ := h code pc sc
    exact ⟨_, hhalt, fun _ _ hr => by cases hr⟩

theorem binaryOp_stackShaped (f : BitVec 256 → BitVec 256 → BitVec 256) : StackShaped (binaryOp (S := S) f) 2 1 where
  mem code pc sc pc' sc' h := by
    unfold binaryOp at h
    split at h
    · cases h
      rfl
    · cases h
  shape code pc sc hlen := by
    match hs : sc.stack, hlen with
    | x :: y :: stack, _ =>
      refine ⟨_, by rw [binaryOp, hs], fun pc' sc' hr => ?_⟩
      cases hr
      exact ⟨rfl, rfl⟩

theorem unaryOp_stackShaped (f : BitVec 256 → BitVec 256) : StackShaped (unaryOp (S := S) f) 1 1 where
  mem code pc sc pc' sc' h := by
    unfold unaryOp at h
    split at h
    · cases h
      rfl
    · cases h
  shape code pc sc hlen := by
    match hs : sc.stack, hlen with
    | x :: stack, _ =>
      refine ⟨_, by rw [unaryOp, hs], fun pc' sc' hr => ?_⟩
      cases hr
      exact ⟨rfl, rfl⟩

theorem ternaryOp_stackShaped (f : BitVec 256 → BitVec 256 → BitVec 256 → BitVec 256) :
    StackShaped (ternaryOp (S := S) f) 3 1 where
  mem code pc sc pc' sc' h := by
    unfold ternaryOp at h
    split at h
    · cases h
      rfl
    · cases h
  shape code pc sc hlen := by
    match hs : sc.stack, hlen with
    | x :: y :: z :: stack, _ =>
      refine ⟨_, by rw [ternaryOp, hs], fun pc' sc' hr => ?_⟩
      cases hr
      exact ⟨rfl, rfl⟩

/-- An instruction that always continues with one item pushed has the shape of a push. -/
theorem StackShaped.of_push {execute : List UInt8 → ℕ → Scope S → Option (ExecResult S)}
    (h : ∀ code pc sc, ∃ pc' v, execute code pc sc = some (.next pc' { sc with stack := v :: sc.stack })) :
    StackShaped execute 0 1 where
  mem code pc sc pc' sc' hexec := by
    obtain ⟨pc'', v, hnext⟩ := h code pc sc
    rw [hnext] at hexec
    cases hexec
    rfl
  shape code pc sc _ := by
    obtain ⟨pc', v, hnext⟩ := h code pc sc
    refine ⟨_, hnext, fun _ _ hr => ?_⟩
    cases hr
    exact ⟨rfl, rfl⟩

theorem pushOp_stackShaped (f : ℕ → Scope S → BitVec 256) : StackShaped (pushOp f) 0 1 :=
  .of_push fun _ _ _ => ⟨_, _, rfl⟩

theorem opPop_stackShaped : StackShaped (opPop (S := S)) 1 0 where
  mem code pc sc pc' sc' h := by
    unfold opPop at h
    split at h
    · cases h
      rfl
    · cases h
  shape code pc sc hlen := by
    match hs : sc.stack, hlen with
    | x :: stack, _ =>
      refine ⟨_, by rw [opPop, hs], fun pc' sc' hr => ?_⟩
      cases hr
      exact ⟨rfl, rfl⟩

theorem opJumpdest_stackShaped : StackShaped (opJumpdest (S := S)) 0 0 where
  mem code pc sc pc' sc' h := by
    cases h
    rfl
  shape code pc sc _ := ⟨_, rfl, fun pc' sc' hr => by
    cases hr
    exact ⟨rfl, rfl⟩⟩

theorem opPush1_stackShaped : StackShaped (opPush1 (S := S)) 0 1 :=
  .of_push fun _ _ _ => ⟨_, _, rfl⟩

theorem makePush_stackShaped (size pushByteSize : ℕ) : StackShaped (makePush (S := S) size pushByteSize) 0 1 :=
  .of_push fun _ _ _ => ⟨_, _, rfl⟩

/-- `Dup(n)` finds the `n`-th item on a stack of `n` items or more. -/
theorem dup_eq_some {stack : List (BitVec 256)} {n : ℕ} (hn : n < stack.length) :
    dup stack (n + 1) = some (stack[n] :: stack) := by
  rw [dup, List.getElem?_eq_getElem hn]
  rfl

theorem makeDup_stackShaped {n : ℕ} (hn : 0 < n) : StackShaped (makeDup (S := S) n) n (n + 1) where
  mem code pc sc pc' sc' h := by
    obtain ⟨stack, -, hnext⟩ := Option.map_eq_some_iff.1 h
    cases hnext
    rfl
  shape code pc sc hlen := by
    obtain ⟨k, rfl⟩ : ∃ k, n = k + 1 := ⟨n - 1, by omega⟩
    refine ⟨_, by rw [makeDup, dup_eq_some (by omega)]; rfl, fun pc' sc' hr => ?_⟩
    cases hr
    exact ⟨by simp only [List.length_cons]; omega, List.drop_succ_cons⟩

/-- `Swap(n)` exchanges the top item and the `n`-th on a stack of `n` items or more, and keeps the length. -/
theorem swap_eq_some {stack : List (BitVec 256)} {n : ℕ} (hn : n < stack.length) :
    ∃ stack', swap stack (n + 1) = some stack' ∧ stack'.length = stack.length ∧
      stack'.drop (n + 1) = stack.drop (n + 1) := by
  have h0 : 0 < stack.length := by omega
  refine ⟨_, by rw [swap, List.getElem?_eq_getElem h0, List.getElem?_eq_getElem hn], ?_, ?_⟩
  · simp only [List.length_set]
  · -- both positions written lie in the top `n + 1` items
    rw [List.drop_set_of_lt (Nat.lt_succ_self n), List.drop_set_of_lt (Nat.succ_pos n)]

theorem makeSwap_stackShaped (n : ℕ) : StackShaped (makeSwap (S := S) n) (n + 1) (n + 1) where
  mem code pc sc pc' sc' h := by
    obtain ⟨stack, -, hnext⟩ := Option.map_eq_some_iff.1 h
    cases hnext
    rfl
  shape code pc sc hlen := by
    obtain ⟨stack', hswap, hlen', hdrop⟩ := @swap_eq_some sc.stack n (by omega)
    refine ⟨_, by rw [makeSwap, hswap]; rfl, fun pc' sc' hr => ?_⟩
    cases hr
    exact ⟨by rw [hlen'], hdrop⟩

/-! ### The memory instructions touch only what `Run` expanded -/

/-- A memory size that reports no overflow is the end of the bytes, from an offset below `2 ^ 64`. -/
theorem calcMemSize64WithUint_of_not_overflow {off : BitVec 256} {length64 : ℕ} (hl : 0 < length64)
    (hl64 : length64 < u64) (h : (calcMemSize64WithUint off length64).2 = false) :
    off.toNat < u64 ∧ (calcMemSize64WithUint off length64).1 = off.toNat + length64 := by
  unfold calcMemSize64WithUint at h ⊢
  rw [if_neg (Nat.pos_iff_ne_zero.1 hl)] at h ⊢
  by_cases hoff : u64 ≤ off.toNat
  · rw [if_pos hoff] at h
    cases h
  · rw [if_neg hoff] at h ⊢
    dsimp only at h ⊢
    simp only [decide_eq_false_iff_not, Nat.not_lt] at h
    -- the sum did not wrap: a wrapped one would fall under the offset
    unfold u64 at *
    omega

/-- What `Ready` says of an entry whose memory is the `length64` bytes from the top item: they lie within the
memory and within the largest memory. -/
theorem Operation.Ready.top {operation : Operation S} {sc : Scope S} (h : operation.Ready sc) {length64 : ℕ}
    (hl : 0 < length64) (hl64 : length64 < u64)
    (hms : operation.memorySize = some fun stack => calcMemSize64WithUint (back stack 0) length64) :
    (back sc.stack 0).toNat < u64 ∧ (back sc.stack 0).toNat + length64 ≤ maxMemorySize ∧
      (back sc.stack 0).toNat + length64 ≤ sc.mem.len := by
  obtain ⟨hover, hmax, hlen⟩ := h.2 _ hms
  obtain ⟨hoff, heq⟩ := calcMemSize64WithUint_of_not_overflow hl hl64 hover
  rw [heq] at hmax hlen
  exact ⟨hoff, hmax, hlen⟩

theorem Memory.getPtr_of_le (m : Memory) (offset size : ℕ) (hsize : 0 < size) (h : offset + size ≤ m.len) :
    m.getPtr offset size = some ((m.store.drop offset).take size) := by
  unfold Memory.getPtr
  rw [if_neg (by omega), if_pos (by omega), if_neg (by omega)]
  simp only [Int.toNat_natCast]

theorem Memory.set32_of_le {m : Memory} {offset : ℕ} (val : BitVec 256) (h : offset + 32 ≤ m.len) :
    ∃ m', m.set32 offset val = some m' :=
  ⟨_, by rw [Memory.set32, if_neg (by omega)]⟩

theorem Memory.setByte_of_lt {m : Memory} {i : ℕ} (b : UInt8) (h : i < m.len) :
    m.setByte i b = some { m with store := m.store.set i b } := by
  rw [Memory.setByte, if_pos h]

theorem pureMemoryGascost_stack {sc sc' : Scope S} {n c : ℕ} (h : pureMemoryGascost sc n = .ok (c, sc')) :
    sc'.stack = sc.stack := by
  unfold pureMemoryGascost at h
  simp only [bind, Except.bind] at h
  cases hmem : memoryGasCost sc.mem n with
  | error e => simp [hmem] at h
  | ok r =>
    simp only [hmem, pure, Except.pure, Except.ok.injEq, Prod.mk.injEq] at h
    obtain ⟨-, rfl⟩ := h
    rfl

/-- The gas of `EXP` leaves the scope as it was. -/
theorem gasExp_eq_ok {expByte : ℕ} {sc sc' : Scope S} {n c : ℕ} (h : gasExp expByte sc n = .ok (c, sc')) :
    sc' = sc := by
  unfold gasExp at h
  dsimp only at h
  split at h
  · cases h
  · cases h
    rfl

theorem mstoreOperation_stackSafe : (mstoreOperation (S := S)).StackSafe 0 where
  keepsMemoryAccount := mstoreOperation_keepsMemoryAccount
  dynamicGas_of_memorySize _ := rfl
  dynamicGas_stack f hf sc n c sc' h := by
    cases hf
    exact pureMemoryGascost_stack h
  numPush_le := Nat.zero_le _
  maxStack_eq := rfl
  execute code pc sc hready := by
    obtain ⟨hoff, -, hlen⟩ := hready.top (by decide) (by decide) rfl
    have hpop : 2 ≤ sc.stack.length := hready.1
    match hs : sc.stack, hpop with
    | mStart :: val :: stack, _ =>
      have hback : back sc.stack 0 = mStart := by rw [hs]; rfl
      rw [hback] at hoff hlen
      obtain ⟨mem, hset⟩ := @Memory.set32_of_le sc.mem (mStart.toNat % u64) val (by rw [Nat.mod_eq_of_lt hoff]; omega)
      refine ⟨_, by show opMstore code pc sc = _; unfold opMstore; rw [hs]; dsimp only; rw [hset]; rfl,
        fun pc' sc' hr => ?_⟩
      cases hr
      exact ⟨rfl, rfl⟩

theorem mloadOperation_keepsMemoryAccount : (mloadOperation (S := S)).KeepsMemoryAccount where
  charges f hf n _ := by
    cases hf
    exact pureMemoryGascost_charges n
  execute code pc sc pc' sc' h := by
    change opMload code pc sc = _ at h
    unfold opMload at h
    split at h
    · obtain ⟨b, -, hnext⟩ := Option.map_eq_some_iff.1 h
      cases hnext
      exact ⟨rfl, rfl⟩
    · cases h

theorem mloadOperation_stackSafe : (mloadOperation (S := S)).StackSafe 1 where
  keepsMemoryAccount := mloadOperation_keepsMemoryAccount
  dynamicGas_of_memorySize _ := rfl
  dynamicGas_stack f hf sc n c sc' h := by
    cases hf
    exact pureMemoryGascost_stack h
  numPush_le := Nat.le_add_right 1 _
  maxStack_eq := rfl
  execute code pc sc hready := by
    obtain ⟨hoff, hmax, hlen⟩ := hready.top (by decide) (by decide) rfl
    have hpop : 1 ≤ sc.stack.length := hready.1
    match hs : sc.stack, hpop with
    | v :: stack, _ =>
      have hback : back sc.stack 0 = v := by rw [hs]; rfl
      rw [hback] at hoff hmax hlen
      -- the offset is below the largest memory, so `int64` reads it as it is
      have hint : toInt64 (v.toNat % u64) = v.toNat := by
        rw [Nat.mod_eq_of_lt hoff, toInt64, if_pos (by unfold maxMemorySize at hmax; omega)]
      have hget := Memory.getPtr_of_le sc.mem v.toNat 32 (by decide) hlen
      simp only [Nat.cast_ofNat] at hget
      refine ⟨_, by show opMload code pc sc = _; unfold opMload; rw [hs]; dsimp only; rw [hint, hget]; rfl,
        fun pc' sc' hr => ?_⟩
      cases hr
      exact ⟨rfl, rfl⟩

theorem mstore8Operation_keepsMemoryAccount : (mstore8Operation (S := S)).KeepsMemoryAccount where
  charges f hf n _ := by
    cases hf
    exact pureMemoryGascost_charges n
  execute code pc sc pc' sc' h := by
    change opMstore8 code pc sc = _ at h
    unfold opMstore8 at h
    split at h
    · obtain ⟨mem, hset, hnext⟩ := Option.map_eq_some_iff.1 h
      cases hnext
      unfold Memory.setByte at hset
      split at hset
      · cases hset
        exact ⟨List.length_set, rfl⟩
      · cases hset
    · cases h

theorem mstore8Operation_stackSafe : (mstore8Operation (S := S)).StackSafe 0 where
  keepsMemoryAccount := mstore8Operation_keepsMemoryAccount
  dynamicGas_of_memorySize _ := rfl
  dynamicGas_stack f hf sc n c sc' h := by
    cases hf
    exact pureMemoryGascost_stack h
  numPush_le := Nat.zero_le _
  maxStack_eq := rfl
  execute code pc sc hready := by
    obtain ⟨hoff, -, hlen⟩ := hready.top (by decide) (by decide) rfl
    have hpop : 2 ≤ sc.stack.length := hready.1
    match hs : sc.stack, hpop with
    | off :: val :: stack, _ =>
      have hback : back sc.stack 0 = off := by rw [hs]; rfl
      rw [hback] at hoff hlen
      have hset := Memory.setByte_of_lt (UInt8.ofNat val.toNat) (m := sc.mem)
        (show off.toNat % u64 < sc.mem.len by rw [Nat.mod_eq_of_lt hoff]; omega)
      refine ⟨_, by show opMstore8 code pc sc = _; unfold opMstore8; rw [hs]; dsimp only; rw [hset]; rfl,
        fun pc' sc' hr => ?_⟩
      cases hr
      exact ⟨rfl, rfl⟩

theorem expOperation_stackSafe : (expOperation (S := S)).StackSafe 1 where
  keepsMemoryAccount :=
    { charges := fun f hf n hn => by
        cases hf
        -- `EXP` has no memory size, so `Run` asks its gas for none
        obtain rfl : n = 0 := hn.resolve_left (by simp [expOperation])
        intro sc c sc' h
        rw [gasExp_eq_ok h]
        exact ⟨0, by rw [memoryGasCost, if_pos rfl]⟩
      execute := fun code pc sc pc' sc' h => by
        rw [(binaryOp_stackShaped _).mem code pc sc pc' sc' h]
        exact ⟨rfl, rfl⟩ }
  dynamicGas_of_memorySize _ := rfl
  dynamicGas_stack f hf sc n c sc' h := by
    cases hf
    rw [gasExp_eq_ok h]
  numPush_le := Nat.le_add_right_of_le (by decide : 1 ≤ 2)
  maxStack_eq := rfl
  execute code pc sc hready := (binaryOp_stackShaped _).shape code pc sc hready.1

/-! ### One iteration and whole runs -/

/-- A size `Run` gives the dynamic gas comes from a memory function that reported no overflow, and covers
what it asked for. -/
theorem runMemorySize_eq_ok {operation : Operation S} {stack : List (BitVec 256)} {n : ℕ}
    (h : runMemorySize operation stack = .ok n) {memorySize : List (BitVec 256) → ℕ × Bool}
    (hms : operation.memorySize = some memorySize) :
    (memorySize stack).2 = false ∧ (memorySize stack).1 ≤ n := by
  unfold runMemorySize at h
  rw [hms] at h
  dsimp only at h
  rcases hp : memorySize stack with ⟨memSize, overflow⟩
  rw [hp] at h
  dsimp only at h
  cases overflow
  · rcases hs : safeMul (toWordSize memSize) 32 with ⟨m, overflow'⟩
    rw [hs] at h
    dsimp only at h
    cases overflow'
    · cases h
      unfold safeMul at hs
      simp only [Prod.mk.injEq, decide_eq_false_iff_not, Nat.not_le] at hs
      obtain ⟨rfl, hlt⟩ := hs
      -- the rounding to whole words did not overflow, so it rounded up
      refine ⟨rfl, ?_⟩
      unfold toWordSize at hlt ⊢
      split_ifs at hlt ⊢ <;> unfold u64 at * <;> omega
    · cases h
  · cases h

/-- What the dynamic part of an iteration can do: nothing without a dynamic gas function, else price the memory
size `Run` computed, take the gas and expand the memory over the size. -/
theorem chargeDynamic_eq_ok {operation : Operation S} {sc sc' : Scope S} {fee : ℕ}
    (h : chargeDynamic operation sc = .ok (sc', fee)) :
    (operation.dynamicGas = none ∧ sc' = sc) ∨
      ∃ f n c sc₁ gas, operation.dynamicGas = some f ∧ runMemorySize operation sc.stack = .ok n ∧
        f sc n = .ok (c, sc₁) ∧ useGas sc₁.gas c = some gas ∧
        sc' = if n > 0 then { sc₁ with gas, mem := sc₁.mem.resize n } else { sc₁ with gas } := by
  unfold chargeDynamic at h
  split at h
  · rename_i hdyn
    cases h
    exact .inl ⟨hdyn, rfl⟩
  · rename_i f hdyn
    simp only [bind, Except.bind] at h
    cases hsize : runMemorySize operation sc.stack with
    | error e => simp [hsize] at h
    | ok n =>
      simp only [hsize] at h
      split at h
      · cases h
      · rename_i c sc₁ hgas
        split at h
        · cases h
        · rename_i gas hgas'
          simp only [pure, Except.pure, Except.ok.injEq, Prod.mk.injEq] at h
          exact .inr ⟨f, n, c, sc₁, gas, hdyn, rfl, hgas, hgas', h.1.symm⟩

/-- A gas function that leaves the stack. -/
def LeavesStack (f : GasFunc S) : Prop := ∀ sc n c sc', f sc n = .ok (c, sc') → sc'.stack = sc.stack

/-- An entry whose dynamic gas is set whenever its memory size is, what `validateAndFillMaxStack` panics on
otherwise, and leaves the stack. -/
structure Operation.GasLeavesStack (operation : Operation S) : Prop where
  dynamicGas_of_memorySize : operation.memorySize.isSome → operation.dynamicGas.isSome
  dynamicGas_stack : ∀ f, operation.dynamicGas = some f → LeavesStack f

/-- An entry that `Run` may run on the code `code`: it keeps the account of the memory, its gas leaves the stack,
and its instruction, on what `Run` has made ready and at most `maxStack` items, does not panic and continues on
at most `1024` items with those under the popped ones kept. -/
structure Operation.RunsOn (operation : Operation S) (code : List UInt8) : Prop where
  keepsMemoryAccount : operation.KeepsMemoryAccount
  gasLeavesStack : operation.GasLeavesStack
  execute : ∀ pc sc, operation.Ready sc → sc.stack.length ≤ operation.maxStack →
    ∃ r, operation.execute code pc sc = some r ∧ ∀ pc' sc', r = .next pc' sc' →
      sc'.stack.length ≤ stackLimit ∧ sc.stack.drop operation.numPop <:+ sc'.stack

/-- An entry that keeps the contract may run on any code: the check against `maxStack` leaves room for what it
pushes. -/
theorem Operation.StackSafe.runsOn {operation : Operation S} {numPush : ℕ} (h : operation.StackSafe numPush)
    (code : List UInt8) : operation.RunsOn code where
  keepsMemoryAccount := h.keepsMemoryAccount
  gasLeavesStack := ⟨h.dynamicGas_of_memorySize, h.dynamicGas_stack⟩
  execute pc sc hready hle := by
    obtain ⟨r, hr, hshape⟩ := h.execute code pc sc hready
    refine ⟨r, hr, fun pc' sc' hnext => ?_⟩
    obtain ⟨hlen, hdrop⟩ := hshape pc' sc' hnext
    have hmax := h.maxStack_eq
    have hpush := h.numPush_le
    unfold Vm.maxStack at hmax
    refine ⟨by omega, ?_⟩
    rw [← hdrop]
    exact List.drop_suffix _ _

/-- The dynamic part of an iteration hands the instruction the stack it started with and, for an entry with a
memory size, a memory expanded over it. -/
theorem chargeDynamic_ready {operation : Operation S} (hacc : operation.KeepsMemoryAccount)
    (hgas : operation.GasLeavesStack) {sc sc' : Scope S} {fee : ℕ} (h : chargeDynamic operation sc = .ok (sc', fee))
    (hpop : operation.numPop ≤ sc.stack.length) : sc'.stack = sc.stack ∧ operation.Ready sc' := by
  rcases chargeDynamic_eq_ok h with ⟨hdyn, rfl⟩ | ⟨f, n, c, sc₁, gas, hdyn, hsize, hgas', -, rfl⟩
  · -- no dynamic gas, so no memory size
    refine ⟨rfl, hpop, fun memorySize hms => absurd (hgas.dynamicGas_of_memorySize (by rw [hms]; rfl)) ?_⟩
    rw [hdyn]
    simp
  · have hstack : sc₁.stack = sc.stack := hgas.dynamicGas_stack f hdyn sc n c sc₁ hgas'
    have hstack' : (if n > 0 then { sc₁ with gas, mem := sc₁.mem.resize n } else { sc₁ with gas }).stack =
        sc.stack := by
      split <;> exact hstack
    refine ⟨hstack', by rw [hstack']; exact hpop, fun memorySize hms => ?_⟩
    rw [hstack']
    -- the gas function priced the size with `memoryGasCost`, which refuses one beyond the largest memory
    obtain ⟨fee₀, hcost⟩ := hacc.charges f hdyn n (.inl (by rw [hms]; rfl)) sc c sc₁ hgas'
    have hn : n ≤ maxMemorySize := by
      by_contra hgt
      rw [memoryGasCost_of_gt _ (Nat.lt_of_not_le hgt)] at hcost
      cases hcost
    obtain ⟨hover, hle⟩ := runMemorySize_eq_ok hsize hms
    refine ⟨hover, le_trans hle hn, ?_⟩
    split
    · rw [Memory.len_resize _ (lt_of_le_of_lt hn (by decide))]
      exact le_trans hle (le_max_right _ _)
    · omega

section Runs

variable {jt : UInt8 → Operation S} {code : List UInt8}

/-- One iteration does not panic, and continues on at most `1024` items with those under the popped ones kept. -/
theorem step_runsOn (hjt : ∀ op, (jt op).RunsOn code) (pc : ℕ) (sc : Scope S) :
    ∃ r, step jt code pc sc = some r ∧ ∀ pc' sc' fee, r = .next pc' sc' fee →
      sc'.stack.length ≤ stackLimit ∧ sc.stack.drop (jt (code.getD pc 0)).numPop <:+ sc'.stack := by
  have hop := hjt (code.getD pc 0)
  unfold step
  dsimp only
  -- the stack checks, then the constant gas and the dynamic part, each of which may end the loop
  split_ifs with hpop hover
  · exact ⟨_, rfl, fun _ _ _ hr => by cases hr⟩
  · exact ⟨_, rfl, fun _ _ _ hr => by cases hr⟩
  split
  · exact ⟨_, rfl, fun _ _ _ hr => by cases hr⟩
  · rename_i gas _
    split
    · exact ⟨_, rfl, fun _ _ _ hr => by cases hr⟩
    · rename_i sc₁ fee hcharge
      obtain ⟨hstack, hready⟩ :=
        chargeDynamic_ready hop.keepsMemoryAccount hop.gasLeavesStack hcharge (Nat.le_of_not_lt hpop)
      dsimp only at hstack
      obtain ⟨r, hexec, hshape⟩ := hop.execute pc sc₁ hready (by rw [hstack]; exact Nat.le_of_not_lt hover)
      refine ⟨_, by rw [hexec]; rfl, fun pc' sc' fee' hr => ?_⟩
      cases r with
      | halt res err => cases hr
      | next pc₂ sc₂ =>
        obtain ⟨hlen, hsuffix⟩ := hshape pc₂ sc₂ rfl
        cases hr
        rw [hstack] at hsuffix
        exact ⟨hlen, hsuffix⟩

/-- Along the loop the stack stays within `1024` items. -/
theorem runLoop_runsOn (hjt : ∀ op, (jt op).RunsOn code) : ∀ {n pc pc' : ℕ} {sc sc' : Scope S} {total total' : ℕ},
    sc.stack.length ≤ stackLimit → runLoop jt code n pc sc total = some (pc', sc', total') →
    sc'.stack.length ≤ stackLimit
  | 0, _, _, _, _, _, _, hsc, h => by
    cases h
    exact hsc
  | n + 1, pc, pc', sc, sc', total, total', hsc, h => by
    obtain ⟨r, hr, hnext⟩ := step_runsOn hjt pc sc
    unfold runLoop at h
    rw [hr] at h
    cases r with
    | next pc₁ sc₁ fee => exact runLoop_runsOn hjt (hnext pc₁ sc₁ fee rfl).1 h
    | halt res err mem fee => cases h

/-- A run that returns nothing has gone through all its fuel: no iteration panicked. -/
theorem run_eq_none_runsOn (hjt : ∀ op, (jt op).RunsOn code) : ∀ {fuel pc : ℕ} {sc : Scope S} {total : ℕ},
    sc.stack.length ≤ stackLimit → run jt code fuel pc sc total = none →
    ∃ pc' sc' total', runLoop jt code fuel pc sc total = some (pc', sc', total')
  | 0, pc, sc, total, _, _ => ⟨pc, sc, total, rfl⟩
  | fuel + 1, pc, sc, total, hsc, h => by
    obtain ⟨r, hr, hnext⟩ := step_runsOn hjt pc sc
    unfold run at h
    rw [hr] at h
    cases r with
    | next pc₁ sc₁ fee =>
      obtain ⟨pc', sc', total', hloop⟩ := run_eq_none_runsOn hjt (hnext pc₁ sc₁ fee rfl).1 h
      exact ⟨pc', sc', total', by rw [runLoop, hr]; exact hloop⟩
    | halt res err mem fee => cases h

/-- The run lemmas together: from a stack of at most `1024` items, every iteration starts on at most `1024`
items, does not panic, and keeps the items under those its instruction pops; a run that returns nothing has
run out of fuel. -/
theorem run_safe_of_runsOn (hjt : ∀ op, (jt op).RunsOn code) {pc total : ℕ} {sc : Scope S}
    (hsc : sc.stack.length ≤ stackLimit) :
    (∀ n pc' sc' total', runLoop jt code n pc sc total = some (pc', sc', total') →
      sc'.stack.length ≤ stackLimit ∧ ∃ r, step jt code pc' sc' = some r ∧
        ∀ pc'' sc'' fee, r = .next pc'' sc'' fee → sc'.stack.drop (jt (code.getD pc' 0)).numPop <:+ sc''.stack) ∧
    ∀ fuel, run jt code fuel pc sc total = none →
      ∃ pc' sc' total', runLoop jt code fuel pc sc total = some (pc', sc', total') := by
  refine ⟨fun n pc' sc' total' h => ?_, fun fuel h => run_eq_none_runsOn hjt hsc h⟩
  have hsc' := runLoop_runsOn hjt hsc h
  obtain ⟨r, hr, hnext⟩ := step_runsOn hjt pc' sc'
  exact ⟨hsc', r, hr, fun pc'' sc'' fee hnext' => (hnext pc'' sc'' fee hnext').2⟩

end Runs

/-! ### The instructions of `Vm.Instructions` keep the contract -/

theorem stopOperation_stackSafe : (stopOperation (S := S)).StackSafe 0 :=
  stackOperation_stackSafe (.of_halt fun _ _ _ => ⟨_, _, rfl⟩) (Nat.zero_le _)

theorem undefinedOperation_stackSafe : (undefinedOperation (S := S)).StackSafe 0 :=
  stackOperation_stackSafe (.of_halt fun _ _ _ => ⟨_, _, rfl⟩) (Nat.zero_le _)

theorem push1Operation_stackSafe : (push1Operation (S := S)).StackSafe 1 :=
  stackOperation_stackSafe opPush1_stackShaped (by unfold stackLimit; omega)

/-- Every entry of `stackJumpTable` keeps the contract. -/
theorem stackJumpTable_stackSafe (op : UInt8) : ∃ numPush, (stackJumpTable (S := S) op).StackSafe numPush := by
  unfold stackJumpTable
  split
  -- the entries of `Vm.Interpreter` and those with a dynamic gas or a memory
  case h_1 => exact ⟨0, stopOperation_stackSafe⟩
  case h_11 => exact ⟨1, expOperation_stackSafe⟩
  case h_28 => exact ⟨1, mloadOperation_stackSafe⟩
  case h_29 => exact ⟨0, mstoreOperation_stackSafe⟩
  case h_30 => exact ⟨0, mstore8Operation_stackSafe⟩
  case h_36 => exact ⟨1, push1Operation_stackSafe⟩
  case h_37 =>
    -- `PUSH2` to `PUSH32`, `DUP1` to `DUP16`, `SWAP1` to `SWAP16` and the unassigned slots
    split_ifs with hpush hdup hswap
    · exact ⟨1, stackOperation_stackSafe (makePush_stackShaped _ _) (by decide)⟩
    · have hn : 0 < op.toNat - 0x7f := by
        have := UInt8.le_iff_toNat_le.1 hdup.1
        simp only [UInt8.reduceToNat] at this
        omega
      exact ⟨_, stackOperation_stackSafe (makeDup_stackShaped hn) (by unfold stackLimit; omega)⟩
    · exact ⟨_, stackOperation_stackSafe (makeSwap_stackShaped _) (by unfold stackLimit; omega)⟩
    · exact ⟨0, undefinedOperation_stackSafe⟩
  -- the entries built by `stackOperation`, one lemma per family
  all_goals first
    | exact ⟨_, stackOperation_stackSafe (binaryOp_stackShaped _) (by decide)⟩
    | exact ⟨_, stackOperation_stackSafe (unaryOp_stackShaped _) (by decide)⟩
    | exact ⟨_, stackOperation_stackSafe (ternaryOp_stackShaped _) (by decide)⟩
    | exact ⟨_, stackOperation_stackSafe (pushOp_stackShaped _) (by decide)⟩
    | exact ⟨_, stackOperation_stackSafe opPop_stackShaped (by decide)⟩
    | exact ⟨_, stackOperation_stackSafe opJumpdest_stackShaped (by decide)⟩

/-- In every run of the loop from a stack of at most `1024` items, over a jump table whose entries keep the
contract, every iteration starts on at most `1024` items, does not panic, and keeps the items under those its
instruction pops; a run that returns nothing has run out of fuel. -/
theorem run_stack_safe {jt : UInt8 → Operation S} (hjt : ∀ op, ∃ numPush, (jt op).StackSafe numPush)
    (code : List UInt8) {pc total : ℕ} {sc : Scope S} (hsc : sc.stack.length ≤ stackLimit) :
    (∀ n pc' sc' total', runLoop jt code n pc sc total = some (pc', sc', total') →
      sc'.stack.length ≤ stackLimit ∧ ∃ r, step jt code pc' sc' = some r ∧
        ∀ pc'' sc'' fee, r = .next pc'' sc'' fee → sc'.stack.drop (jt (code.getD pc' 0)).numPop <:+ sc''.stack) ∧
    ∀ fuel, run jt code fuel pc sc total = none →
      ∃ pc' sc' total', runLoop jt code fuel pc sc total = some (pc', sc', total') :=
  run_safe_of_runsOn (fun op => (hjt op).elim fun _ h => h.runsOn code) hsc

theorem run_stack_safe_push1Stop :
    ((∀ op, ∃ numPush, (stackJumpTable (S := Unit) op).StackSafe numPush) ∧ mstoreScope.stack.length ≤ stackLimit) ∧
    (∀ n pc' sc' total', runLoop stackJumpTable [0x60, 0x01, 0x00] n 0 mstoreScope 0 = some (pc', sc', total') →
      sc'.stack.length ≤ stackLimit ∧ ∃ r, step stackJumpTable [0x60, 0x01, 0x00] pc' sc' = some r ∧
        ∀ pc'' sc'' fee, r = .next pc'' sc'' fee →
          sc'.stack.drop (stackJumpTable (S := Unit) ([0x60, 0x01, 0x00].getD pc' 0)).numPop <:+ sc''.stack) ∧
    ∀ fuel, run stackJumpTable [0x60, 0x01, 0x00] fuel 0 mstoreScope 0 = none →
      ∃ pc' sc' total', runLoop stackJumpTable [0x60, 0x01, 0x00] fuel 0 mstoreScope 0 = some (pc', sc', total') :=
  ⟨⟨stackJumpTable_stackSafe, by decide⟩, run_stack_safe stackJumpTable_stackSafe _ (by decide)⟩

end AmazeChain.Vm
