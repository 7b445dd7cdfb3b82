import AmazeChain.Vm.JumpTable

/-!
# A validated step is safe

`Run` checks the stack against `numPop` and `maxStack`, and, for an entry with a memory size, expands the memory
over the size its memory function reports; then it runs the instruction.  This module proves that these checks are
enough for every entry of every jump table (`Vm.JumpTable`), also after `EnableEIP`: the instruction reads and
writes only its top `numPop` items (`Framed`), its memory function reads no others, and it does not panic and
leaves `numPush` items in their place, at most `1024` in all (`Operation.StepSafe`).

An instruction of the model returns `none` exactly where Go panics: a `Pop`, `Peek` or `Back` off a stack too
short, a `Memory.Set`, `Set32`, `GetPtr`, `GetCopy` or store index past the end of the memory or from a negative
offset, and a slice of `getData` whose end wraps below its start.  So a step that returns `some` touched the
memory only within `mem.Len()`.  What `Run` has checked of the memory is `Memory.Covers`: the length fits in
64 bits and, unless it is zero, the bytes end within the largest memory and within the memory.

The one bound the checks do not give is Go's own: a slice holds fewer than `2 ^ 63` bytes, so the code, the input
and the code of an account are that short (`Host.SliceBounded`), which the lists of the model are not.
-/

namespace AmazeChain.Vm

open EVM (VmError OpCode)
open Txspool (u64)
open TwosComplement (toInt64)

variable {S σ Addr : Type}

/-! ### The contract of a step -/

/-- The end of an instruction with `rest` put under the stack it leaves. -/
def ExecResult.pushBelow (rest : List (BitVec 256)) : ExecResult S → ExecResult S
  | .next pc sc => .next pc { sc with stack := sc.stack ++ rest }
  | .halt res err => .halt res err

/-- An instruction that reads and writes only its top `numPop` items: on a stack with more under them it does what
it does on those items alone, and keeps the rest under what it leaves. -/
def Framed (execute : List UInt8 → ℕ → Scope S → Option (ExecResult S)) (numPop : ℕ) : Prop :=
  ∀ code pc (sc : Scope S) top rest, top.length = numPop →
    execute code pc { sc with stack := top ++ rest } =
      (execute code pc { sc with stack := top }).map (ExecResult.pushBelow rest)

/-- A memory function that reads only the top `numPop` items. -/
def SizeFramed (memorySize : List (BitVec 256) → ℕ × Bool) (numPop : ℕ) : Prop :=
  ∀ top rest, top.length = numPop → memorySize (top ++ rest) = memorySize top

/-- On a stack of exactly `numPop` items, for a code and a scope that `pre` holds of, the instruction does not
panic and leaves `numPush` items. -/
def ExactShape (execute : List UInt8 → ℕ → Scope S → Option (ExecResult S)) (numPop numPush : ℕ)
    (pre : List UInt8 → Scope S → Prop) : Prop :=
  ∀ code pc (sc : Scope S), sc.stack.length = numPop → pre code sc →
    ∃ r, execute code pc sc = some r ∧ ∀ pc' sc', r = .next pc' sc' → sc'.stack.length = numPush

/-- What Go's slices bound and the lists of the model do not: the input of the frame and the code of every account
hold fewer than `2 ^ 63` bytes. -/
structure Host.SliceBounded (host : Host σ Addr) : Prop where
  input : ∀ s, (host.input s).length < 2 ^ 63
  getCode : ∀ s a, (host.getCode s a).length < 2 ^ 63

/-- An entry of the jump table that is safe to run once `Run` has checked the stack and expanded the memory: its
`maxStack` is the one `validateAndFillMaxStack` fills in, its memory function and its instruction read and write
only the top `numPop` items, and on a code of fewer than `2 ^ 63` bytes and a stack of `numPop` to `maxStack`
items the instruction does not panic and leaves `numPush` items in place of the top `numPop`, at most `1024`. -/
structure Operation.StepSafe (operation : Operation S) (numPush : ℕ) : Prop where
  maxStack_eq : operation.maxStack = Vm.maxStack operation.numPop numPush
  memorySize_frame : ∀ memorySize, operation.memorySize = some memorySize → SizeFramed memorySize operation.numPop
  frame : Framed operation.execute operation.numPop
  execute : ∀ code pc sc, code.length < 2 ^ 63 → operation.Ready sc → sc.stack.length ≤ operation.maxStack →
    ∃ r, operation.execute code pc sc = some r ∧ ∀ pc' sc', r = .next pc' sc' →
      sc'.stack.length + operation.numPop = sc.stack.length + numPush ∧ sc'.stack.length ≤ stackLimit ∧
        sc'.stack.drop numPush = sc.stack.drop operation.numPop

theorem ExactShape.mono {execute : List UInt8 → ℕ → Scope S → Option (ExecResult S)} {numPop numPush : ℕ}
    {pre pre' : List UInt8 → Scope S → Prop} (h : ExactShape execute numPop numPush pre)
    (hpre : ∀ code sc, pre' code sc → pre code sc) : ExactShape execute numPop numPush pre' :=
  fun code pc sc hlen hpre' => h code pc sc hlen (hpre code sc hpre')

theorem StackShaped.exactShape {execute : List UInt8 → ℕ → Scope S → Option (ExecResult S)} {numPop numPush : ℕ}
    (h : StackShaped execute numPop numPush) (pre : List UInt8 → Scope S → Prop) :
    ExactShape execute numPop numPush pre := by
  intro code pc sc hlen _
  obtain ⟨r, hr, hshape⟩ := h.shape code pc sc hlen.ge
  exact ⟨r, hr, fun pc' sc' hnext => by have := (hshape pc' sc' hnext).1; omega⟩

theorem back_append {top rest : List (BitVec 256)} {n : ℕ} (h : n < top.length) :
    back (top ++ rest) n = back top n := by
  unfold back
  rw [List.getD_eq_getElem?_getD, List.getElem?_append_left h, ← List.getD_eq_getElem?_getD]

/-- `Run`'s checks hold of the popped items alone when the memory function reads no others. -/
theorem Operation.Ready.take {operation : Operation S} {sc : Scope S} (h : operation.Ready sc)
    (hms : ∀ memorySize, operation.memorySize = some memorySize → SizeFramed memorySize operation.numPop) :
    operation.Ready { sc with stack := sc.stack.take operation.numPop } := by
  have hlen : (sc.stack.take operation.numPop).length = operation.numPop := List.length_take_of_le h.1
  refine ⟨hlen.ge, fun memorySize hsome => ?_⟩
  have heq : memorySize sc.stack = memorySize (sc.stack.take operation.numPop) := by
    conv_lhs => rw [← List.take_append_drop operation.numPop sc.stack]
    exact hms memorySize hsome _ _ hlen
  rw [← heq]
  exact h.2 memorySize hsome

/-- An entry is safe once its instruction is safe on exactly the items it pops: the frame puts the rest back. -/
theorem Operation.StepSafe.of_exact {operation : Operation S} {numPush : ℕ}
    (hpush : numPush ≤ operation.numPop + stackLimit) (hmax : operation.maxStack = Vm.maxStack operation.numPop numPush)
    (hms : ∀ memorySize, operation.memorySize = some memorySize → SizeFramed memorySize operation.numPop)
    (hframe : Framed operation.execute operation.numPop)
    (hexec : ExactShape operation.execute operation.numPop numPush
      fun code sc => code.length < 2 ^ 63 ∧ operation.Ready sc) :
    operation.StepSafe numPush where
  maxStack_eq := hmax
  memorySize_frame := hms
  frame := hframe
  execute code pc sc hcode hready hle := by
    have htop : (sc.stack.take operation.numPop).length = operation.numPop := List.length_take_of_le hready.1
    obtain ⟨r, hr, hshape⟩ := hexec code pc _ htop ⟨hcode, hready.take hms⟩
    have hexec' : operation.execute code pc sc = some (r.pushBelow (sc.stack.drop operation.numPop)) :=
      calc operation.execute code pc sc
          = operation.execute code pc
              { sc with stack := sc.stack.take operation.numPop ++ sc.stack.drop operation.numPop } := by
            rw [List.take_append_drop]
        _ = (operation.execute code pc { sc with stack := sc.stack.take operation.numPop }).map
              (ExecResult.pushBelow (sc.stack.drop operation.numPop)) := hframe code pc sc _ _ htop
        _ = some (r.pushBelow (sc.stack.drop operation.numPop)) := by rw [hr]; rfl
    refine ⟨_, hexec', fun pc' sc' hnext => ?_⟩
    cases r with
    | halt res err => cases hnext
    | next pc₁ sc₁ =>
      have hlen : sc₁.stack.length = numPush := hshape pc₁ sc₁ rfl
      cases hnext
      have hpop : operation.numPop ≤ sc.stack.length := hready.1
      -- the room `maxStack` leaves is what the instruction pushes
      have hroom : sc.stack.length ≤ Vm.maxStack operation.numPop numPush := hmax ▸ hle
      unfold Vm.maxStack at hroom
      have hlen' : (sc₁.stack ++ sc.stack.drop operation.numPop).length =
          numPush + (sc.stack.length - operation.numPop) := by
        rw [List.length_append, List.length_drop, hlen]
      exact ⟨by rw [hlen']; omega, by rw [hlen']; omega, List.drop_left' hlen⟩

/-- The contract reads only an entry's instruction, its pops, its `maxStack` and its memory function. -/
theorem Operation.StepSafe.congr {operation operation' : Operation S} {numPush : ℕ} (h : operation.StepSafe numPush)
    (hexec : operation'.execute = operation.execute) (hpop : operation'.numPop = operation.numPop)
    (hmax : operation'.maxStack = operation.maxStack) (hms : operation'.memorySize = operation.memorySize) :
    operation'.StepSafe numPush := by
  have hready : ∀ sc, operation'.Ready sc ↔ operation.Ready sc := by
    intro sc
    unfold Operation.Ready
    rw [hpop, hms]
  refine ⟨by rw [hmax, hpop]; exact h.maxStack_eq, fun memorySize hsome => ?_, by rw [hexec, hpop]; exact h.frame,
    fun code pc sc hcode hready' hle => ?_⟩
  · rw [hpop]
    exact h.memorySize_frame memorySize (hms ▸ hsome)
  · rw [hexec, hpop]
    exact h.execute code pc sc hcode ((hready sc).1 hready') (hmax ▸ hle)

/-- Every entry of the table is safe. -/
def JumpTable.StepSafe (jt : JumpTable S) : Prop := ∀ op, ∃ numPush, (jt op).StepSafe numPush

theorem JumpTable.StepSafe.set {jt : JumpTable S} (hjt : jt.StepSafe) (op : UInt8) {operation : Operation S}
    {numPush : ℕ} (h : operation.StepSafe numPush) : (jt.set op operation).StepSafe := by
  intro o
  unfold JumpTable.set
  split
  · exact ⟨numPush, h⟩
  · exact hjt o

/-- A change of gas keeps the contract, which does not read the gas. -/
theorem JumpTable.StepSafe.setConstantGas {jt : JumpTable S} (hjt : jt.StepSafe) (op : UInt8) (constantGas : ℕ) :
    (jt.setConstantGas op constantGas).StepSafe :=
  have ⟨_, h⟩ := hjt op
  hjt.set op (h.congr rfl rfl rfl rfl)

theorem JumpTable.StepSafe.setDynamicGas {jt : JumpTable S} (hjt : jt.StepSafe) (op : UInt8) (f : GasFunc S) :
    (jt.setDynamicGas op f).StepSafe :=
  have ⟨_, h⟩ := hjt op
  hjt.set op (h.congr rfl rfl rfl rfl)

/-! ### The memory `Run` expanded -/

/-- The `length` bytes at `offset` as `Run` has checked and expanded them: a length within 64 bits and, unless it
is zero, an end within the largest memory and within the memory. -/
def Memory.Covers (mem : Memory) (offset length : BitVec 256) : Prop :=
  length.toNat < u64 ∧
    (length.toNat = 0 ∨ offset.toNat + length.toNat ≤ maxMemorySize ∧ offset.toNat + length.toNat ≤ mem.len)

/-- A memory size without overflow, within the largest memory and the memory, covers its bytes. -/
theorem calcMemSize64_covers {mem : Memory} {off l : BitVec 256} (hover : (calcMemSize64 off l).2 = false)
    (hmax : (calcMemSize64 off l).1 ≤ maxMemorySize) (hlen : (calcMemSize64 off l).1 ≤ mem.len) :
    mem.Covers off l := by
  unfold calcMemSize64 at hover hmax hlen
  by_cases hl : u64 ≤ l.toNat
  · rw [if_pos hl] at hover
    cases hover
  · rw [if_neg hl] at hover hmax hlen
    refine ⟨Nat.lt_of_not_le hl, ?_⟩
    rcases Nat.eq_zero_or_pos l.toNat with h0 | hpos
    · exact .inl h0
    · obtain ⟨-, heq⟩ := calcMemSize64WithUint_of_not_overflow hpos (Nat.lt_of_not_le hl) hover
      rw [heq] at hmax hlen
      exact .inr ⟨hmax, hlen⟩

/-- What `Ready` says of an entry whose memory is the bytes at an offset and a length on the stack. -/
theorem Operation.Ready.covers {operation : Operation S} {sc : Scope S} (h : operation.Ready sc) {offPos lenPos : ℕ}
    (hms : operation.memorySize = some (memoryAt offPos lenPos)) :
    sc.mem.Covers (back sc.stack offPos) (back sc.stack lenPos) := by
  obtain ⟨hover, hmax, hlen⟩ := h.2 _ hms
  exact calcMemSize64_covers hover hmax hlen

/-- The memory of a call reports no overflow only when neither of its parts does, and covers both. -/
theorem memoryCallArgs_of_not_overflow {retPos inPos : ℕ} {stack : List (BitVec 256)}
    (h : (memoryCallArgs retPos inPos stack).2 = false) :
    (memoryAt retPos (retPos + 1) stack).2 = false ∧ (memoryAt inPos (inPos + 1) stack).2 = false ∧
      (memoryAt retPos (retPos + 1) stack).1 ≤ (memoryCallArgs retPos inPos stack).1 ∧
      (memoryAt inPos (inPos + 1) stack).1 ≤ (memoryCallArgs retPos inPos stack).1 := by
  unfold memoryCallArgs at h ⊢
  revert h
  rcases memoryAt retPos (retPos + 1) stack with ⟨x, _ | _⟩
  · rcases memoryAt inPos (inPos + 1) stack with ⟨y, _ | _⟩
    · intro _
      -- the size is the larger of the two ends
      refine ⟨rfl, rfl, ?_, ?_⟩ <;> simp only [Bool.false_eq_true, ↓reduceIte] <;> split <;> dsimp only <;> omega
    · intro h
      simp at h
  · intro h
    simp at h

theorem Operation.Ready.covers_call {operation : Operation S} {sc : Scope S} (h : operation.Ready sc)
    {retPos inPos : ℕ} (hms : operation.memorySize = some (memoryCallArgs retPos inPos)) :
    sc.mem.Covers (back sc.stack retPos) (back sc.stack (retPos + 1)) ∧
      sc.mem.Covers (back sc.stack inPos) (back sc.stack (inPos + 1)) := by
  obtain ⟨hover, hmax, hlen⟩ := h.2 _ hms
  obtain ⟨hret, hin, hretle, hinle⟩ := memoryCallArgs_of_not_overflow hover
  exact ⟨calcMemSize64_covers hret (le_trans hretle hmax) (le_trans hretle hlen),
    calcMemSize64_covers hin (le_trans hinle hmax) (le_trans hinle hlen)⟩

theorem memoryAt_sizeFramed {offPos lenPos numPop : ℕ} (hoff : offPos < numPop) (hlen : lenPos < numPop) :
    SizeFramed (memoryAt offPos lenPos) numPop := by
  intro top rest htop
  unfold memoryAt
  rw [back_append (by omega), back_append (by omega)]

theorem memoryCallArgs_sizeFramed {retPos inPos numPop : ℕ} (hret : retPos + 1 < numPop) (hin : inPos + 1 < numPop) :
    SizeFramed (memoryCallArgs retPos inPos) numPop := by
  intro top rest htop
  unfold memoryCallArgs
  rw [memoryAt_sizeFramed (by omega) hret top rest htop, memoryAt_sizeFramed (by omega) hin top rest htop]

theorem calcMemSize64WithUint_sizeFramed {numPop : ℕ} (hpop : 0 < numPop) (length64 : ℕ) :
    SizeFramed (fun stack => calcMemSize64WithUint (back stack 0) length64) numPop := by
  intro top rest htop
  dsimp only
  rw [back_append (by omega)]

/-- A bound within the largest memory is read as it is by `int64`. -/
theorem toInt64_mod_of_le {x : ℕ} (h : x ≤ maxMemorySize) : toInt64 (x % u64) = x := by
  unfold maxMemorySize at h
  rw [Nat.mod_eq_of_lt (by unfold u64; omega), toInt64, if_pos (by omega)]

theorem Memory.Covers.length_le {mem : Memory} {offset length : BitVec 256} (h : mem.Covers offset length) :
    length.toNat % u64 ≤ maxMemorySize := by
  rcases h with ⟨hl, h0 | ⟨hmax, -⟩⟩
  · rw [h0, Nat.zero_mod]
    exact Nat.zero_le _
  · rw [Nat.mod_eq_of_lt hl]
    omega

/-- A copy of a length the memory covers from a slice that Go can hold ends below `2 ^ 64`. -/
theorem Memory.Covers.add_lt_u64 {mem : Memory} {offset length : BitVec 256} (h : mem.Covers offset length)
    {data : List UInt8} (hdata : data.length < 2 ^ 63) : data.length + length.toNat % u64 < u64 := by
  have hl := h.length_le
  unfold maxMemorySize at hl
  unfold u64 at hl ⊢
  omega

theorem Memory.Covers.getPtr {mem : Memory} {offset length : BitVec 256} (h : mem.Covers offset length) :
    ∃ d, mem.getPtr (toInt64 (offset.toNat % u64)) (toInt64 (length.toNat % u64)) = some d := by
  rcases h with ⟨-, h0 | ⟨hmax, hlen⟩⟩
  · refine ⟨[], ?_⟩
    rw [h0, Nat.zero_mod, Memory.getPtr, if_pos (by simp [toInt64])]
  · rw [toInt64_mod_of_le (by omega), toInt64_mod_of_le (by omega)]
    rcases Nat.eq_zero_or_pos length.toNat with h0 | hpos
    · exact ⟨[], by rw [Memory.getPtr, if_pos (by rw [h0]; rfl)]⟩
    · exact ⟨_, Memory.getPtr_of_le mem _ _ hpos hlen⟩

theorem Memory.Covers.getCopy {mem : Memory} {offset length : BitVec 256} (h : mem.Covers offset length) :
    ∃ d, mem.getCopy (toInt64 (offset.toNat % u64)) (toInt64 (length.toNat % u64)) = some d := by
  rcases h with ⟨-, h0 | ⟨hmax, -⟩⟩
  · refine ⟨[], ?_⟩
    rw [h0, Nat.zero_mod, Memory.getCopy, if_pos (by simp [toInt64])]
  · rw [toInt64_mod_of_le (by omega), toInt64_mod_of_le (by omega)]
    unfold Memory.getCopy
    -- offsets and lengths read off the stack are not negative
    split_ifs with h0 hlt hneg
    · exact ⟨_, rfl⟩
    · omega
    · exact ⟨_, rfl⟩
    · exact ⟨_, rfl⟩

theorem Memory.Covers.set {mem : Memory} {offset length : BitVec 256} (h : mem.Covers offset length)
    (value : List UInt8) : ∃ mem', mem.set (offset.toNat % u64) (length.toNat % u64) value = some mem' := by
  rcases h with ⟨hl, h0 | ⟨hmax, hlen⟩⟩
  · exact ⟨mem, by rw [h0, Nat.zero_mod, Memory.set, if_pos rfl]⟩
  · have hoff : offset.toNat < u64 := by unfold maxMemorySize at hmax; unfold u64; omega
    rw [Nat.mod_eq_of_lt hoff, Nat.mod_eq_of_lt hl]
    unfold Memory.set
    split_ifs with h0 hover
    · exact ⟨_, rfl⟩
    · omega
    · exact ⟨_, rfl⟩

/-- `getData` does not panic when the data and the size together fit in 64 bits. -/
theorem getData_isSome {data : List UInt8} {start size : ℕ} (h : data.length + size < u64) :
    ∃ d, getData data start size = some d := by
  -- the start is cut to the length, so its end does not wrap and is not below it
  have hend : ∀ s ≤ data.length,
      ¬ (if (s + size) % u64 > data.length then data.length else (s + size) % u64) < s := by
    intro s hs
    rw [Nat.mod_eq_of_lt (by omega)]
    split_ifs <;> omega
  unfold getData
  dsimp only
  rw [if_neg (hend _ (by split_ifs <;> omega))]
  exact ⟨_, rfl⟩

theorem getDataBig_isSome {data : List UInt8} (start : BitVec 256) {size : ℕ} (h : data.length + size < u64) :
    ∃ d, getDataBig data start size = some d :=
  getData_isSome h

/-! ### The entries of the stack -/

theorem binaryOp_framed (f : BitVec 256 → BitVec 256 → BitVec 256) : Framed (binaryOp (S := S) f) 2 := by
  intro code pc sc top rest htop
  match top, htop with
  | [x, y], _ => rfl

theorem unaryOp_framed (f : BitVec 256 → BitVec 256) : Framed (unaryOp (S := S) f) 1 := by
  intro code pc sc top rest htop
  match top, htop with
  | [x], _ => rfl

theorem ternaryOp_framed (f : BitVec 256 → BitVec 256 → BitVec 256 → BitVec 256) :
    Framed (ternaryOp (S := S) f) 3 := by
  intro code pc sc top rest htop
  match top, htop with
  | [x, y, z], _ => rfl

/-- A push of a value that does not read the stack. -/
theorem pushOp_framed {f : ℕ → Scope S → BitVec 256} (hf : ∀ pc sc stack, f pc { sc with stack } = f pc sc) :
    Framed (pushOp f) 0 := by
  intro code pc sc top rest htop
  match top, htop with
  | [], _ =>
    simp only [pushOp, Option.map_some, hf]
    rfl

theorem opPop_framed : Framed (opPop (S := S)) 1 := by
  intro code pc sc top rest htop
  match top, htop with
  | [x], _ => rfl

theorem opJumpdest_framed : Framed (opJumpdest (S := S)) 0 := by
  intro code pc sc top rest htop
  match top, htop with
  | [], _ => rfl

theorem opPush1_framed : Framed (opPush1 (S := S)) 0 := by
  intro code pc sc top rest htop
  match top, htop with
  | [], _ => rfl

theorem makePush_framed (size pushByteSize : ℕ) : Framed (makePush (S := S) size pushByteSize) 0 := by
  intro code pc sc top rest htop
  match top, htop with
  | [], _ => rfl

theorem makeDup_framed {n : ℕ} (hn : 0 < n) : Framed (makeDup (S := S) n) n := by
  intro code pc sc top rest htop
  obtain ⟨k, rfl⟩ : ∃ k, n = k + 1 := ⟨n - 1, by omega⟩
  have hk : k < top.length := by omega
  simp only [makeDup, dup, List.getElem?_append_left hk, List.getElem?_eq_getElem hk, Option.map_some]
  rfl

theorem makeSwap_framed (n : ℕ) : Framed (makeSwap (S := S) n) (n + 1) := by
  intro code pc sc top rest htop
  have h0 : 0 < top.length := by omega
  have hn : n < top.length := by omega
  simp only [makeSwap, swap, List.getElem?_append_left h0, List.getElem?_append_left hn,
    List.getElem?_eq_getElem h0, List.getElem?_eq_getElem hn, Option.map_some]
  rw [List.set_append_left _ _ h0, List.set_append_left _ _ (by rw [List.length_set]; exact hn)]
  rfl

/-- An instruction that ends the frame whatever the scope is framed at any depth. -/
theorem Framed.of_halt {execute : List UInt8 → ℕ → Scope S → Option (ExecResult S)} {numPop : ℕ}
    (h : ∀ code pc sc sc', execute code pc sc = execute code pc sc')
    (hhalt : ∀ code pc sc, ∃ res err, execute code pc sc = some (.halt res err)) : Framed execute numPop := by
  intro code pc sc top rest _
  obtain ⟨res, err, hres⟩ := hhalt code pc { sc with stack := top }
  rw [h code pc _ { sc with stack := top }, hres]
  rfl

theorem stopOperation_stepSafe : (stopOperation (S := S)).StepSafe 0 :=
  .of_exact (Nat.zero_le _) rfl (fun _ h => by cases h)
    (.of_halt (fun _ _ _ _ => rfl) fun _ _ _ => ⟨_, _, rfl⟩)
    ((StackShaped.of_halt fun _ _ _ => ⟨_, _, rfl⟩).exactShape _)

theorem undefinedOperation_stepSafe : (undefinedOperation (S := S)).StepSafe 0 :=
  .of_exact (Nat.zero_le _) rfl (fun _ h => by cases h)
    (.of_halt (fun _ _ _ _ => rfl) fun _ _ _ => ⟨_, _, rfl⟩)
    ((StackShaped.of_halt fun _ _ _ => ⟨_, _, rfl⟩).exactShape _)

/-- An entry without a memory size whose instruction is framed and safe on exactly the items it pops, where `pre`
is what the entry needs of the code and the scope beyond the count of items. -/
theorem mkOperation_stepSafe {execute : List UInt8 → ℕ → Scope S → Option (ExecResult S)}
    {constantGas numPop numPush : ℕ} {dynamicGas : Option (GasFunc S)} (hpush : numPush ≤ numPop + stackLimit)
    (hframe : Framed execute numPop)
    (hexec : ExactShape execute numPop numPush fun code _ => code.length < 2 ^ 63) :
    (mkOperation execute constantGas dynamicGas numPop numPush none).StepSafe numPush :=
  .of_exact hpush rfl (fun _ h => by cases h) hframe (hexec.mono fun _ _ h => h.1)

theorem stackOperation_stepSafe {execute : List UInt8 → ℕ → Scope S → Option (ExecResult S)}
    {constantGas numPop numPush : ℕ} (hpush : numPush ≤ numPop + stackLimit) (hframe : Framed execute numPop)
    (hexec : ExactShape execute numPop numPush fun code _ => code.length < 2 ^ 63) :
    (stackOperation execute constantGas numPop numPush).StepSafe numPush :=
  mkOperation_stepSafe hpush hframe hexec

theorem StackShaped.stepSafe {execute : List UInt8 → ℕ → Scope S → Option (ExecResult S)}
    {constantGas numPop numPush : ℕ} (h : StackShaped execute numPop numPush) (hframe : Framed execute numPop)
    (hpush : numPush ≤ numPop + stackLimit) : (stackOperation execute constantGas numPop numPush).StepSafe numPush :=
  stackOperation_stepSafe hpush hframe (h.exactShape _)

theorem push1Operation_stepSafe : (push1Operation (S := S)).StepSafe 1 :=
  .of_exact (by unfold stackLimit; omega) rfl (fun _ h => by cases h) opPush1_framed
    (opPush1_stackShaped.exactShape _)

/-- A push of a value that does not read the stack is safe. -/
theorem pushOp_stepSafe {f : ℕ → Scope S → BitVec 256} (hf : ∀ pc sc stack, f pc { sc with stack } = f pc sc)
    (constantGas : ℕ) : (stackOperation (pushOp f) constantGas 0 1).StepSafe 1 :=
  (pushOp_stackShaped f).stepSafe (pushOp_framed hf) (by unfold stackLimit; omega)

/-- The entries of `Vm.StackSafety` whose memory function reads the top item. -/
theorem Operation.StackSafe.stepSafe {operation : Operation S} {numPush : ℕ} (h : operation.StackSafe numPush)
    (hms : ∀ memorySize, operation.memorySize = some memorySize → SizeFramed memorySize operation.numPop)
    (hframe : Framed operation.execute operation.numPop) : operation.StepSafe numPush :=
  .of_exact h.numPush_le h.maxStack_eq hms hframe fun code pc sc hlen hpre => by
    obtain ⟨r, hr, hshape⟩ := h.execute code pc sc hpre.2
    exact ⟨r, hr, fun pc' sc' hnext => by have := (hshape pc' sc' hnext).1; omega⟩

theorem opMload_framed : Framed (opMload (S := S)) 1 := by
  intro code pc sc top rest htop
  match top, htop with
  | [v], _ =>
    simp only [opMload, List.cons_append, List.nil_append, Option.map_map]
    rfl

theorem opMstore_framed : Framed (opMstore (S := S)) 2 := by
  intro code pc sc top rest htop
  match top, htop with
  | [mStart, val], _ =>
    simp only [opMstore, List.cons_append, List.nil_append, Option.map_map]
    rfl

theorem opMstore8_framed : Framed (opMstore8 (S := S)) 2 := by
  intro code pc sc top rest htop
  match top, htop with
  | [off, val], _ =>
    simp only [opMstore8, List.cons_append, List.nil_append, Option.map_map]
    rfl

theorem mloadOperation_stepSafe : (mloadOperation (S := S)).StepSafe 1 :=
  mloadOperation_stackSafe.stepSafe (fun _ h => by cases h; exact calcMemSize64WithUint_sizeFramed Nat.zero_lt_one 32)
    opMload_framed

theorem mstoreOperation_stepSafe : (mstoreOperation (S := S)).StepSafe 0 :=
  mstoreOperation_stackSafe.stepSafe (fun _ h => by cases h; exact calcMemSize64WithUint_sizeFramed Nat.zero_lt_two 32)
    opMstore_framed

theorem mstore8Operation_stepSafe : (mstore8Operation (S := S)).StepSafe 0 :=
  mstore8Operation_stackSafe.stepSafe (fun _ h => by cases h; exact calcMemSize64WithUint_sizeFramed Nat.zero_lt_two 1)
    opMstore8_framed

/-! ### The entries that read the host -/

theorem peekOp_cons (f : σ → BitVec 256 → BitVec 256 × σ) (code : List UInt8) (pc : ℕ) (sc : Scope (EvmCtx σ))
    (x : BitVec 256) (stack : List (BitVec 256)) :
    peekOp f code pc { sc with stack := x :: stack } =
      some (.next pc { sc.withState (f sc.ctx.state x).2 with stack := (f sc.ctx.state x).1 :: stack }) := rfl

theorem peekOp_framed (f : σ → BitVec 256 → BitVec 256 × σ) : Framed (peekOp f) 1 := by
  intro code pc sc top rest htop
  match top, htop with
  | [x], _ => rw [List.cons_append, List.nil_append, peekOp_cons, peekOp_cons]; rfl

theorem peekOp_stepSafe (f : σ → BitVec 256 → BitVec 256 × σ) (constantGas : ℕ) :
    (stackOperation (peekOp f) constantGas 1 1).StepSafe 1 := by
  refine stackOperation_stepSafe (by unfold stackLimit; omega) (peekOp_framed f) fun code pc sc hlen _ => ?_
  obtain ⟨gas, stack, mem, ctx⟩ := sc
  match stack, hlen with
  | [x], _ => exact ⟨_, peekOp_cons f code pc ⟨gas, [], mem, ctx⟩ x [], fun pc' sc' h => by cases h; rfl⟩

theorem opCallDataLoad_framed (host : Host σ Addr) : Framed (opCallDataLoad host) 1 := by
  intro code pc sc top rest htop
  match top, htop with
  | [x], _ =>
    simp only [opCallDataLoad, List.cons_append, List.nil_append]
    split
    · rfl
    · rw [Option.map_map]
      rfl

/-- `CALLDATALOAD` reads 32 bytes of an input shorter than a slice may be. -/
theorem opCallDataLoad_stepSafe {host : Host σ Addr} (hhost : host.SliceBounded) (constantGas : ℕ) :
    (stackOperation (opCallDataLoad host) constantGas 1 1).StepSafe 1 := by
  refine stackOperation_stepSafe (by unfold stackLimit; omega) (opCallDataLoad_framed host)
    fun code pc sc hlen _ => ?_
  obtain ⟨gas, stack, mem, ctx⟩ := sc
  match stack, hlen with
  | [x], _ =>
    by_cases hx : u64 ≤ x.toNat
    · exact ⟨_, by simp only [opCallDataLoad, if_pos hx]; rfl, fun pc' sc' h => by cases h; rfl⟩
    · obtain ⟨data, hdata⟩ := @getData_isSome (host.input ctx.state) x.toNat 32
        (by have := hhost.input ctx.state; unfold u64; omega)
      exact ⟨_, by simp only [opCallDataLoad, if_neg hx, hdata, Option.map_some]; rfl,
        fun pc' sc' h => by cases h; rfl⟩

theorem opCodeSize_framed : Framed (opCodeSize (S := S)) 0 := by
  intro code pc sc top rest htop
  match top, htop with
  | [], _ => rfl

theorem opDifficulty_framed (host : Host σ Addr) : Framed (opDifficulty host) 0 := by
  intro code pc sc top rest htop
  match top, htop with
  | [], _ =>
    simp only [opDifficulty, List.nil_append]
    split
    · rfl
    · split <;> rfl

theorem opDifficulty_stackShaped (host : Host σ Addr) : StackShaped (opDifficulty host) 0 1 where
  mem code pc sc pc' sc' h := by
    unfold opDifficulty at h
    split at h
    · cases h
      rfl
    · dsimp only at h
      split at h
      · cases h
      · cases h
        rfl
  shape code pc sc _ := by
    unfold opDifficulty
    split
    · exact ⟨_, rfl, fun pc' sc' h => by cases h; exact ⟨rfl, rfl⟩⟩
    · dsimp only
      split
      · exact ⟨_, rfl, fun pc' sc' h => by cases h⟩
      · exact ⟨_, rfl, fun pc' sc' h => by cases h; exact ⟨rfl, rfl⟩⟩

theorem opJump_framed (host : Host σ Addr) : Framed (opJump host) 1 := by
  intro code pc sc top rest htop
  match top, htop with
  | [pos], _ =>
    simp only [opJump, List.cons_append, List.nil_append]
    split <;> rfl

theorem opJump_exactShape (host : Host σ Addr) (pre : List UInt8 → Scope (EvmCtx σ) → Prop) :
    ExactShape (opJump host) 1 0 pre := by
  intro code pc sc hlen _
  obtain ⟨gas, stack, mem, ctx⟩ := sc
  match stack, hlen with
  | [pos], _ =>
    by_cases hvalid : host.validJumpdest ctx.state pos
    · exact ⟨_, by simp only [opJump, hvalid, ↓reduceIte]; rfl,
        fun pc' sc' h => by obtain ⟨-, rfl⟩ := ExecResult.next.inj h; rfl⟩
    · exact ⟨_, by simp only [opJump, hvalid, Bool.false_eq_true, ↓reduceIte]; rfl, fun pc' sc' h => by cases h⟩

theorem opJumpi_framed (host : Host σ Addr) : Framed (opJumpi host) 2 := by
  intro code pc sc top rest htop
  match top, htop with
  | [pos, cond], _ =>
    simp only [opJumpi, List.cons_append, List.nil_append]
    split
    · split <;> rfl
    · rfl

theorem opJumpi_exactShape (host : Host σ Addr) (pre : List UInt8 → Scope (EvmCtx σ) → Prop) :
    ExactShape (opJumpi host) 2 0 pre := by
  intro code pc sc hlen _
  obtain ⟨gas, stack, mem, ctx⟩ := sc
  match stack, hlen with
  | [pos, cond], _ =>
    by_cases hcond : cond ≠ 0
    · by_cases hvalid : host.validJumpdest ctx.state pos
      · exact ⟨_, by simp only [opJumpi, ne_eq, hcond, hvalid, not_false_eq_true, ↓reduceIte]; rfl,
          fun pc' sc' h => by obtain ⟨-, rfl⟩ := ExecResult.next.inj h; rfl⟩
      · exact ⟨_, by simp only [opJumpi, ne_eq, hcond, hvalid, not_false_eq_true, Bool.false_eq_true, ↓reduceIte]; rfl,
          fun pc' sc' h => by cases h⟩
    · exact ⟨_, by simp only [opJumpi, hcond, ↓reduceIte]; rfl, fun pc' sc' h => by cases h; rfl⟩

theorem opSstore_framed (host : Host σ Addr) : Framed host.opSstore 2 := by
  intro code pc sc top rest htop
  match top, htop with
  | [loc, val], _ =>
    simp only [Host.opSstore, List.cons_append, List.nil_append]
    split <;> rfl

theorem opSstore_exactShape (host : Host σ Addr) (pre : List UInt8 → Scope (EvmCtx σ) → Prop) :
    ExactShape host.opSstore 2 0 pre := by
  intro code pc sc hlen _
  obtain ⟨gas, stack, mem, ctx⟩ := sc
  match stack, hlen with
  | [loc, val], _ =>
    by_cases hro : host.readOnly ctx.state
    · exact ⟨_, by simp only [Host.opSstore, hro, if_true]; rfl, fun pc' sc' h => by cases h⟩
    · exact ⟨_, by simp only [Host.opSstore, hro]; rfl, fun pc' sc' h => by cases h; rfl⟩

theorem opSelfdestruct_framed (host : Host σ Addr) : Framed (opSelfdestruct host) 1 := by
  intro code pc sc top rest htop
  match top, htop with
  | [beneficiary], _ =>
    simp only [opSelfdestruct, List.cons_append, List.nil_append]
    split <;> rfl

theorem opSelfdestruct_exactShape (host : Host σ Addr) (pre : List UInt8 → Scope (EvmCtx σ) → Prop) :
    ExactShape (opSelfdestruct host) 1 0 pre := by
  intro code pc sc hlen _
  obtain ⟨gas, stack, mem, ctx⟩ := sc
  match stack, hlen with
  | [beneficiary], _ =>
    by_cases hro : host.readOnly ctx.state
    · exact ⟨_, by simp only [opSelfdestruct, hro, if_true]; rfl, fun pc' sc' h => by cases h⟩
    · exact ⟨_, by simp only [opSelfdestruct, hro]; rfl, fun pc' sc' h => by cases h⟩

/-! ### The entries of the memory -/

/-- An entry whose memory is the bytes at an offset and a length among the items it pops, and whose instruction is
safe on those items where the memory covers the bytes. -/
theorem mkOperation_memoryAt_stepSafe {execute : List UInt8 → ℕ → Scope S → Option (ExecResult S)}
    {constantGas numPop numPush offPos lenPos : ℕ} {dynamicGas : Option (GasFunc S)}
    (hpush : numPush ≤ numPop + stackLimit) (hoff : offPos < numPop) (hlen : lenPos < numPop)
    (hframe : Framed execute numPop)
    (hexec : ExactShape execute numPop numPush
      fun code sc => code.length < 2 ^ 63 ∧ sc.mem.Covers (back sc.stack offPos) (back sc.stack lenPos)) :
    (mkOperation execute constantGas dynamicGas numPop numPush (some (memoryAt offPos lenPos))).StepSafe numPush :=
  .of_exact hpush rfl (fun _ h => by cases h; exact memoryAt_sizeFramed hoff hlen) hframe
    (hexec.mono fun _ _ h => ⟨h.1, h.2.covers rfl⟩)

/-- An entry whose memory is that of a call, with the returned data at `retPos` and the arguments at `inPos`. -/
theorem mkOperation_memoryCallArgs_stepSafe {execute : List UInt8 → ℕ → Scope S → Option (ExecResult S)}
    {constantGas numPop numPush retPos inPos : ℕ} {dynamicGas : Option (GasFunc S)}
    (hpush : numPush ≤ numPop + stackLimit) (hret : retPos + 1 < numPop) (hin : inPos + 1 < numPop)
    (hframe : Framed execute numPop)
    (hexec : ExactShape execute numPop numPush fun _ sc =>
      sc.mem.Covers (back sc.stack retPos) (back sc.stack (retPos + 1)) ∧
        sc.mem.Covers (back sc.stack inPos) (back sc.stack (inPos + 1))) :
    (mkOperation execute constantGas dynamicGas numPop numPush (some (memoryCallArgs retPos inPos))).StepSafe
      numPush :=
  .of_exact hpush rfl (fun _ h => by cases h; exact memoryCallArgs_sizeFramed hret hin) hframe
    (hexec.mono fun _ _ h => h.2.covers_call rfl)

theorem opKeccak256_framed (host : Host σ Addr) : Framed (opKeccak256 host) 2 := by
  intro code pc sc top rest htop
  match top, htop with
  | [offset, size], _ =>
    simp only [opKeccak256, List.cons_append, List.nil_append, Option.map_map]
    rfl

theorem opKeccak256_exactShape (host : Host σ Addr) :
    ExactShape (opKeccak256 host) 2 1 fun _ sc => sc.mem.Covers (back sc.stack 0) (back sc.stack 1) := by
  intro code pc sc hlen hcov
  obtain ⟨gas, stack, mem, ctx⟩ := sc
  match stack, hlen with
  | [offset, size], _ =>
    have hcov : mem.Covers offset size := hcov
    obtain ⟨data, hdata⟩ := hcov.getPtr
    exact ⟨_, by simp only [opKeccak256, hdata, Option.map_some]; rfl, fun pc' sc' h => by cases h; rfl⟩

/-- The copies end in `copyToMemory`, which leaves the stack under the popped items. -/
theorem copyToMemory_framed (pc : ℕ) (sc : Scope S) (stack rest : List (BitVec 256)) (memOffset length : ℕ)
    (data : List UInt8) (stack' : List (BitVec 256)) :
    copyToMemory pc { sc with stack := stack' ++ rest } (stack ++ rest) memOffset length data =
      (copyToMemory pc { sc with stack := stack' } stack memOffset length data).map (ExecResult.pushBelow rest) := by
  simp only [copyToMemory, Option.map_map]
  rfl

theorem Memory.Covers.copyToMemory {mem : Memory} {memOffset length : BitVec 256} (h : mem.Covers memOffset length)
    (pc : ℕ) (sc : Scope S) (hmem : sc.mem = mem) (data : List UInt8) :
    ∃ r, copyToMemory pc sc [] (memOffset.toNat % u64) (length.toNat % u64) data = some r ∧
      ∀ pc' sc', r = .next pc' sc' → sc'.stack.length = 0 := by
  obtain ⟨mem', hset⟩ := h.set data
  refine ⟨_, by rw [Vm.copyToMemory, hmem, hset]; rfl, fun pc' sc' h => by cases h; rfl⟩

theorem opCallDataCopy_framed (host : Host σ Addr) : Framed (opCallDataCopy host) 3 := by
  intro code pc sc top rest htop
  match top, htop with
  | [memOffset, dataOffset, length], _ =>
    simp only [opCallDataCopy, List.cons_append, List.nil_append, Option.map_bind]
    congr 1
    funext data
    exact copyToMemory_framed pc sc [] rest _ _ data _

theorem opCallDataCopy_exactShape {host : Host σ Addr} (hhost : host.SliceBounded) :
    ExactShape (opCallDataCopy host) 3 0 fun _ sc => sc.mem.Covers (back sc.stack 0) (back sc.stack 2) := by
  intro code pc sc hlen hcov
  obtain ⟨gas, stack, mem, ctx⟩ := sc
  match stack, hlen with
  | [memOffset, dataOffset, length], _ =>
    have hcov : mem.Covers memOffset length := hcov
    -- the length is within the largest memory, so the input and the length fit in 64 bits
    obtain ⟨data, hdata⟩ := @getData_isSome (host.input ctx.state)
      (if u64 ≤ dataOffset.toNat then u64 - 1 else dataOffset.toNat) (length.toNat % u64)
      (hcov.add_lt_u64 (hhost.input ctx.state))
    obtain ⟨r, hr, hshape⟩ := hcov.copyToMemory pc ⟨gas, [], mem, ctx⟩ rfl data
    exact ⟨r, by simp only [opCallDataCopy, hdata, Option.bind_some]; exact hr, hshape⟩

theorem opCodeCopy_framed : Framed (opCodeCopy (S := S)) 3 := by
  intro code pc sc top rest htop
  match top, htop with
  | [memOffset, codeOffset, length], _ =>
    simp only [opCodeCopy, List.cons_append, List.nil_append, Option.map_bind]
    congr 1
    funext codeCopy
    exact copyToMemory_framed pc sc [] rest _ _ codeCopy _

theorem opCodeCopy_exactShape :
    ExactShape (opCodeCopy (S := S)) 3 0
      fun code sc => code.length < 2 ^ 63 ∧ sc.mem.Covers (back sc.stack 0) (back sc.stack 2) := by
  intro code pc sc hlen hpre
  obtain ⟨gas, stack, mem, ctx⟩ := sc
  match stack, hlen with
  | [memOffset, codeOffset, length], _ =>
    have hcov : mem.Covers memOffset length := hpre.2
    obtain ⟨codeCopy, hcopy⟩ := @getData_isSome code
      (if u64 ≤ codeOffset.toNat then u64 - 1 else codeOffset.toNat) (length.toNat % u64) (hcov.add_lt_u64 hpre.1)
    obtain ⟨r, hr, hshape⟩ := hcov.copyToMemory pc ⟨gas, [], mem, ctx⟩ rfl codeCopy
    exact ⟨r, by simp only [opCodeCopy, hcopy, Option.bind_some]; exact hr, hshape⟩

theorem opExtCodeCopy_framed (host : Host σ Addr) : Framed (opExtCodeCopy host) 4 := by
  intro code pc sc top rest htop
  match top, htop with
  | [a, memOffset, codeOffset, length], _ =>
    simp only [opExtCodeCopy, List.cons_append, List.nil_append, Option.map_bind]
    congr 1
    funext codeCopy
    exact copyToMemory_framed pc sc [] rest _ _ codeCopy _

theorem opExtCodeCopy_exactShape {host : Host σ Addr} (hhost : host.SliceBounded) :
    ExactShape (opExtCodeCopy host) 4 0 fun _ sc => sc.mem.Covers (back sc.stack 1) (back sc.stack 3) := by
  intro code pc sc hlen hcov
  obtain ⟨gas, stack, mem, ctx⟩ := sc
  match stack, hlen with
  | [a, memOffset, codeOffset, length], _ =>
    have hcov : mem.Covers memOffset length := hcov
    obtain ⟨codeCopy, hcopy⟩ := @getDataBig_isSome (host.getCode ctx.state (host.toAddress a)) codeOffset
      (length.toNat % u64) (hcov.add_lt_u64 (hhost.getCode ctx.state (host.toAddress a)))
    obtain ⟨r, hr, hshape⟩ := hcov.copyToMemory pc ⟨gas, [], mem, ctx⟩ rfl codeCopy
    exact ⟨r, by simp only [opExtCodeCopy, hcopy, Option.bind_some]; exact hr, hshape⟩

theorem opReturnDataCopy_framed (host : Host σ Addr) : Framed (opReturnDataCopy host) 3 := by
  intro code pc sc top rest htop
  match top, htop with
  | [memOffset, dataOffset, length], _ =>
    simp only [opReturnDataCopy, List.cons_append, List.nil_append]
    split
    · rfl
    · exact copyToMemory_framed pc sc [] rest _ _ _ _

theorem opReturnDataCopy_exactShape (host : Host σ Addr) :
    ExactShape (opReturnDataCopy host) 3 0 fun _ sc => sc.mem.Covers (back sc.stack 0) (back sc.stack 2) := by
  intro code pc sc hlen hcov
  obtain ⟨gas, stack, mem, ctx⟩ := sc
  match stack, hlen with
  | [memOffset, dataOffset, length], _ =>
    have hcov : mem.Covers memOffset length := hcov
    unfold opReturnDataCopy
    dsimp only
    split
    · exact ⟨_, rfl, fun pc' sc' h => by cases h⟩
    · exact hcov.copyToMemory pc ⟨gas, [], mem, ctx⟩ rfl _

theorem makeLog_framed (host : Host σ Addr) (size : ℕ) : Framed (makeLog host size) (size + 2) := by
  intro code pc sc top rest htop
  match top, htop with
  | mStart :: mSize :: topics, htop =>
    have hlen : topics.length = size := by simpa using htop
    simp only [makeLog, List.cons_append]
    split
    · rfl
    · -- the topics are the items under the two popped, so the rest stays under them
      rw [if_neg (by simp only [List.length_append]; omega), if_neg (by omega), Option.map_map,
        List.take_append_of_le_length (by omega), List.drop_append_of_le_length (by omega)]
      simp only [List.take_of_length_le (le_of_eq hlen), List.drop_eq_nil_of_le (le_of_eq hlen)]
      rfl

theorem makeLog_exactShape (host : Host σ Addr) (size : ℕ) :
    ExactShape (makeLog host size) (size + 2) 0 fun _ sc => sc.mem.Covers (back sc.stack 0) (back sc.stack 1) := by
  intro code pc sc hlen hcov
  obtain ⟨gas, stack, mem, ctx⟩ := sc
  match stack, hlen with
  | mStart :: mSize :: topics, hlen =>
    have htopics : topics.length = size := by simpa using hlen
    have hcov : mem.Covers mStart mSize := hcov
    obtain ⟨d, hd⟩ := hcov.getCopy
    by_cases hro : host.readOnly ctx.state
    · exact ⟨_, by simp only [makeLog, hro, if_true]; rfl, fun pc' sc' h => by cases h⟩
    · refine ⟨_, by simp only [makeLog, hro, Bool.false_eq_true, if_false, htopics, lt_self_iff_false, hd,
        Option.map_some]; rfl, fun pc' sc' h => ?_⟩
      cases h
      show (topics.drop size).length = 0
      rw [List.length_drop, htopics, Nat.sub_self]

theorem opReturn_framed : Framed (opReturn (S := S)) 2 := by
  intro code pc sc top rest htop
  match top, htop with
  | [offset, size], _ =>
    simp only [opReturn, List.cons_append, List.nil_append, Option.map_map]
    rfl

theorem opReturn_exactShape :
    ExactShape (opReturn (S := S)) 2 0 fun _ sc => sc.mem.Covers (back sc.stack 0) (back sc.stack 1) := by
  intro code pc sc hlen hcov
  obtain ⟨gas, stack, mem, ctx⟩ := sc
  match stack, hlen with
  | [offset, size], _ =>
    have hcov : mem.Covers offset size := hcov
    obtain ⟨ret, hret⟩ := hcov.getPtr
    exact ⟨_, by simp only [opReturn, hret, Option.map_some]; rfl, fun pc' sc' h => by cases h⟩

theorem opRevert_framed : Framed (opRevert (S := S)) 2 := by
  intro code pc sc top rest htop
  match top, htop with
  | [offset, size], _ =>
    simp only [opRevert, List.cons_append, List.nil_append, Option.map_map]
    rfl

theorem opRevert_exactShape :
    ExactShape (opRevert (S := S)) 2 0 fun _ sc => sc.mem.Covers (back sc.stack 0) (back sc.stack 1) := by
  intro code pc sc hlen hcov
  obtain ⟨gas, stack, mem, ctx⟩ := sc
  match stack, hlen with
  | [offset, size], _ =>
    have hcov : mem.Covers offset size := hcov
    obtain ⟨ret, hret⟩ := hcov.getPtr
    exact ⟨_, by simp only [opRevert, hret, Option.map_some]; rfl, fun pc' sc' h => by cases h⟩

/-! ### The nested frames -/

/-- What a call does once the nested frame returns does not read the stack it replaces. -/
theorem callReturn_framed (host : Host σ Addr) (pc : ℕ) (sc : Scope (EvmCtx σ)) (stack' rest : List (BitVec 256))
    (retOffset retSize : BitVec 256) (ret : List UInt8) (returnGas : ℕ) (err : Option VmError) (s : σ) :
    callReturn host pc { sc with stack := stack' ++ rest } rest retOffset retSize ret returnGas err s =
      (callReturn host pc { sc with stack := stack' } [] retOffset retSize ret returnGas err s).map
        (ExecResult.pushBelow rest) := by
  simp only [callReturn, Option.map_map]
  rfl

/-- Where the memory covers the returned data, the call writes it back and leaves its one item. -/
theorem Memory.Covers.callReturn {host : Host σ Addr} {pc : ℕ} {sc : Scope (EvmCtx σ)} {retOffset retSize : BitVec 256}
    (h : sc.mem.Covers retOffset retSize) (ret : List UInt8) (returnGas : ℕ) (err : Option VmError) (s : σ) :
    ∃ r, Vm.callReturn host pc sc [] retOffset retSize ret returnGas err s = some r ∧
      ∀ pc' sc', r = .next pc' sc' → sc'.stack.length = 1 := by
  unfold Vm.callReturn
  dsimp only
  -- the data comes back into the memory when the frame succeeded or reverted
  by_cases hcopy : err = none ∨ err = some .errExecutionReverted
  · obtain ⟨mem', hset⟩ := h.set ret
    exact ⟨_, by rw [if_pos hcopy, hset]; rfl, fun pc' sc' h => by cases h; rfl⟩
  · exact ⟨_, by rw [if_neg hcopy]; rfl, fun pc' sc' h => by cases h; rfl⟩

theorem opCall_framed (host : Host σ Addr) : Framed (opCall host) 7 := by
  intro code pc sc top rest htop
  match top, htop with
  | [g, addr, value, inOffset, inSize, retOffset, retSize], _ =>
    simp only [opCall, List.cons_append, List.nil_append, Option.map_bind]
    congr 1
    funext args
    split
    · rfl
    · exact callReturn_framed host pc sc _ rest _ _ _ _ _ _

theorem opCall_exactShape (host : Host σ Addr) :
    ExactShape (opCall host) 7 1 fun _ sc =>
      sc.mem.Covers (back sc.stack 5) (back sc.stack 6) ∧ sc.mem.Covers (back sc.stack 3) (back sc.stack 4) := by
  intro code pc sc hlen hcov
  obtain ⟨gas, stack, mem, ctx⟩ := sc
  match stack, hlen with
  | [g, addr, value, inOffset, inSize, retOffset, retSize], _ =>
    have hret : mem.Covers retOffset retSize := hcov.1
    have hin : mem.Covers inOffset inSize := hcov.2
    obtain ⟨args, hargs⟩ := hin.getPtr
    simp only [opCall, hargs, Option.bind_some]
    split
    · exact ⟨_, rfl, fun pc' sc' h => by cases h⟩
    · exact @Memory.Covers.callReturn σ Addr host pc ⟨gas, [], mem, ctx⟩ retOffset retSize hret _ _ _ _

theorem opCallCode_framed (host : Host σ Addr) : Framed (opCallCode host) 7 := by
  intro code pc sc top rest htop
  match top, htop with
  | [g, addr, value, inOffset, inSize, retOffset, retSize], _ =>
    simp only [opCallCode, List.cons_append, List.nil_append, Option.map_bind]
    congr 1
    funext args
    exact callReturn_framed host pc sc _ rest _ _ _ _ _ _

theorem opCallCode_exactShape (host : Host σ Addr) :
    ExactShape (opCallCode host) 7 1 fun _ sc =>
      sc.mem.Covers (back sc.stack 5) (back sc.stack 6) ∧ sc.mem.Covers (back sc.stack 3) (back sc.stack 4) := by
  intro code pc sc hlen hcov
  obtain ⟨gas, stack, mem, ctx⟩ := sc
  match stack, hlen with
  | [g, addr, value, inOffset, inSize, retOffset, retSize], _ =>
    have hret : mem.Covers retOffset retSize := hcov.1
    have hin : mem.Covers inOffset inSize := hcov.2
    obtain ⟨args, hargs⟩ := hin.getPtr
    simp only [opCallCode, hargs, Option.bind_some]
    exact @Memory.Covers.callReturn σ Addr host pc ⟨gas, [], mem, ctx⟩ retOffset retSize hret _ _ _ _

theorem callWithoutValue_framed (host : Host σ Addr) (typ : OpCode) : Framed (callWithoutValue host typ) 6 := by
  intro code pc sc top rest htop
  match top, htop with
  | [g, addr, inOffset, inSize, retOffset, retSize], _ =>
    simp only [callWithoutValue, List.cons_append, List.nil_append, Option.map_bind]
    congr 1
    funext args
    exact callReturn_framed host pc sc _ rest _ _ _ _ _ _

theorem callWithoutValue_exactShape (host : Host σ Addr) (typ : OpCode) :
    ExactShape (callWithoutValue host typ) 6 1 fun _ sc =>
      sc.mem.Covers (back sc.stack 4) (back sc.stack 5) ∧ sc.mem.Covers (back sc.stack 2) (back sc.stack 3) := by
  intro code pc sc hlen hcov
  obtain ⟨gas, stack, mem, ctx⟩ := sc
  match stack, hlen with
  | [g, addr, inOffset, inSize, retOffset, retSize], _ =>
    have hret : mem.Covers retOffset retSize := hcov.1
    have hin : mem.Covers inOffset inSize := hcov.2
    obtain ⟨args, hargs⟩ := hin.getPtr
    simp only [callWithoutValue, hargs, Option.bind_some]
    exact @Memory.Covers.callReturn σ Addr host pc ⟨gas, [], mem, ctx⟩ retOffset retSize hret _ _ _ _

theorem opCreate_framed (host : Host σ Addr) : Framed (opCreate host) 3 := by
  intro code pc sc top rest htop
  match top, htop with
  | [value, offset, size], _ =>
    simp only [opCreate, List.cons_append, List.nil_append]
    split
    · rfl
    · rw [Option.map_map]
      rfl

theorem opCreate_exactShape (host : Host σ Addr) :
    ExactShape (opCreate host) 3 1 fun _ sc => sc.mem.Covers (back sc.stack 1) (back sc.stack 2) := by
  intro code pc sc hlen hcov
  obtain ⟨gas, stack, mem, ctx⟩ := sc
  match stack, hlen with
  | [value, offset, size], _ =>
    have hcov : mem.Covers offset size := hcov
    obtain ⟨input, hinput⟩ := hcov.getCopy
    by_cases hro : host.readOnly ctx.state
    · exact ⟨_, by simp only [opCreate, hro, if_true]; rfl, fun pc' sc' h => by cases h⟩
    · exact ⟨_, by simp only [opCreate, hro, Bool.false_eq_true, if_false, hinput, Option.map_some]; rfl,
        fun pc' sc' h => by cases h; rfl⟩

theorem opCreate2_framed (host : Host σ Addr) : Framed (opCreate2 host) 4 := by
  intro code pc sc top rest htop
  match top, htop with
  | [endowment, offset, size, salt], _ =>
    simp only [opCreate2, List.cons_append, List.nil_append]
    split
    · rfl
    · rw [Option.map_map]
      rfl

theorem opCreate2_exactShape (host : Host σ Addr) :
    ExactShape (opCreate2 host) 4 1 fun _ sc => sc.mem.Covers (back sc.stack 1) (back sc.stack 2) := by
  intro code pc sc hlen hcov
  obtain ⟨gas, stack, mem, ctx⟩ := sc
  match stack, hlen with
  | [endowment, offset, size, salt], _ =>
    have hcov : mem.Covers offset size := hcov
    obtain ⟨input, hinput⟩ := hcov.getCopy
    by_cases hro : host.readOnly ctx.state
    · exact ⟨_, by simp only [opCreate2, hro, if_true]; rfl, fun pc' sc' h => by cases h⟩
    · exact ⟨_, by simp only [opCreate2, hro, Bool.false_eq_true, if_false, hinput, Option.map_some]; rfl,
        fun pc' sc' h => by cases h; rfl⟩

end AmazeChain.Vm
