import AmazeChain.Vm.Interpreter
import AmazeChain.Lib.Uint256

/-!
# The instructions of the stack and the memory

The instructions of `instructions.go` that work on the stack and the memory alone, with their entries in the jump
tables: the arithmetic, comparison and bitwise instructions, `POP`, `MLOAD`, `MSTORE8`, `PC`, `MSIZE`, `GAS`,
`JUMPDEST`, `PUSH0` (`eips.go`), `PUSH2` to `PUSH32` (`makePush`), `DUP1` to `DUP16` (`makeDup`) and `SWAP1` to
`SWAP16` (`makeSwap`).  They read and write the stack through `Pop`, `Peek`, `Push`, `Dup` and `Swap` of
`stack/stack.go`, and the memory through `GetPtr` of `memory.go` and an index into the store; a read out of range
panics, which is `none`.  The values are those of `uint256.Int` (`Lib.Uint256`).

Each family of instructions is one definition: `binaryOp` pops `x` and replaces the item `y` under it with a
function of both, `unaryOp` replaces the top item, `ternaryOp` pops two and replaces the third, and `pushOp`
pushes a value read off the program counter and the scope.  Each instruction is its family applied to the
function of `uint256` it calls, as the source writes it; `EXP` and `SAR` take their shortcuts in that function.

`stackJumpTable` holds the entries of these instructions in the tables from Shanghai on (`EXP` priced by
`gasExpEIP160`), with `STOP`, `MSTORE` and `PUSH1` of `Vm.Interpreter`; every other slot is unassigned.
-/

namespace AmazeChain.Vm

open EVM (VmError)
open Txspool (u64)
open TwosComplement (toInt64)

variable {S : Type}

/-! ### The stack and the memory -/

/-- `Stack.Dup(n)`: the `n`-th item from the top pushed again; a stack of fewer items panics. -/
def dup (stack : List (BitVec 256)) : ℕ → Option (List (BitVec 256))
  | 0 => none
  | n + 1 => stack[n]?.map (· :: stack)

/-- `Stack.Swap(n)`: the top item and the `n`-th from the top change places; a stack of fewer items panics. -/
def swap (stack : List (BitVec 256)) : ℕ → Option (List (BitVec 256))
  | 0 => none
  | n + 1 =>
    match stack[0]?, stack[n]? with
    | some top, some nth => some ((stack.set 0 nth).set n top)
    | _, _ => none

/-- `Memory.GetPtr(offset, size)`: the `size` bytes of the store from `offset`, nil for a size of zero or an
offset at or past the end.  A slice past the end, or from a negative offset, panics (Go allows a slice up to the
capacity of the store, which the model leaves out: `Run` resizes the memory over every slice it reads). -/
def Memory.getPtr (m : Memory) (offset size : ℤ) : Option (List UInt8) :=
  if size = 0 then some []
  else if offset < m.len then
    if offset < 0 ∨ m.len < offset + size then none
    else some ((m.store.drop offset.toNat).take size.toNat)
  else some []

/-- `store[i] = b`: an index at or past the end panics. -/
def Memory.setByte (m : Memory) (i : ℕ) (b : UInt8) : Option Memory :=
  if i < m.len then some { m with store := m.store.set i b } else none

/-- `types.RightPadBytes`: the slice padded with zeros on the right to `l` bytes, or itself if as long. -/
def rightPadBytes (slice : List UInt8) (l : ℕ) : List UInt8 :=
  if l ≤ slice.length then slice else slice ++ List.replicate (l - slice.length) 0

/-! ### The families of instructions -/

/-- An instruction that pops `x` and puts `f x y` in place of the item `y` under it (`Pop`, then `Peek`). -/
def binaryOp (f : BitVec 256 → BitVec 256 → BitVec 256) (_ : List UInt8) (pc : ℕ) (sc : Scope S) :
    Option (ExecResult S) :=
  match sc.stack with
  | x :: y :: stack => some (.next pc { sc with stack := f x y :: stack })
  | _ => none

/-- An instruction that puts `f x` in place of the top item `x` (`Peek`). -/
def unaryOp (f : BitVec 256 → BitVec 256) (_ : List UInt8) (pc : ℕ) (sc : Scope S) : Option (ExecResult S) :=
  match sc.stack with
  | x :: stack => some (.next pc { sc with stack := f x :: stack })
  | [] => none

/-- An instruction that pops `x` and `y` and puts `f x y z` in place of the item `z` under them. -/
def ternaryOp (f : BitVec 256 → BitVec 256 → BitVec 256 → BitVec 256) (_ : List UInt8) (pc : ℕ)
    (sc : Scope S) : Option (ExecResult S) :=
  match sc.stack with
  | x :: y :: z :: stack => some (.next pc { sc with stack := f x y z :: stack })
  | _ => none

/-- An instruction that pushes a value read off the program counter and the scope. -/
def pushOp (f : ℕ → Scope S → BitVec 256) (_ : List UInt8) (pc : ℕ) (sc : Scope S) : Option (ExecResult S) :=
  some (.next pc { sc with stack := f pc sc :: sc.stack })

/-! ### Arithmetic, comparison and bitwise instructions -/

/-- `opAdd`. -/
def opAdd : List UInt8 → ℕ → Scope S → Option (ExecResult S) := binaryOp fun x y => x + y

/-- `opSub`. -/
def opSub : List UInt8 → ℕ → Scope S → Option (ExecResult S) := binaryOp fun x y => x - y

/-- `opMul`. -/
def opMul : List UInt8 → ℕ → Scope S → Option (ExecResult S) := binaryOp fun x y => x * y

/-- `opDiv`. -/
def opDiv : List UInt8 → ℕ → Scope S → Option (ExecResult S) := binaryOp Uint256.div

/-- `opSdiv`. -/
def opSdiv : List UInt8 → ℕ → Scope S → Option (ExecResult S) := binaryOp BitVec.sdiv

/-- `opMod`. -/
def opMod : List UInt8 → ℕ → Scope S → Option (ExecResult S) := binaryOp Uint256.mod

/-- `opSmod`. -/
def opSmod : List UInt8 → ℕ → Scope S → Option (ExecResult S) := binaryOp Uint256.smod

/-- `opExp`: the shortcuts for a zero or one exponent and a base of zero, one or two, else `Exp`. -/
def opExp : List UInt8 → ℕ → Scope S → Option (ExecResult S) :=
  binaryOp fun base exponent =>
    if exponent = 0 then 1
    else if base = 0 then 0
    else if exponent.toNat < 2 then base
    else if base.toNat < 2 then 1
    else if base.toNat < 3 then
      if exponent.toNat < 256 then 1 <<< exponent.toNat else 0
    else Uint256.exp base exponent

/-- `opSignExtend`: the popped item is the byte number, the item under it the value. -/
def opSignExtend : List UInt8 → ℕ → Scope S → Option (ExecResult S) :=
  binaryOp fun back num => Uint256.extendSign num back

/-- `opNot`. -/
def opNot : List UInt8 → ℕ → Scope S → Option (ExecResult S) := unaryOp fun x => ~~~x

/-- `opLt`. -/
def opLt : List UInt8 → ℕ → Scope S → Option (ExecResult S) := binaryOp fun x y => if x < y then 1 else 0

/-- `opGt`. -/
def opGt : List UInt8 → ℕ → Scope S → Option (ExecResult S) := binaryOp fun x y => if y < x then 1 else 0

/-- `opSlt`. -/
def opSlt : List UInt8 → ℕ → Scope S → Option (ExecResult S) := binaryOp fun x y => if x.slt y then 1 else 0

/-- `opSgt`. -/
def opSgt : List UInt8 → ℕ → Scope S → Option (ExecResult S) := binaryOp fun x y => if y.slt x then 1 else 0

/-- `opEq`. -/
def opEq : List UInt8 → ℕ → Scope S → Option (ExecResult S) := binaryOp fun x y => if x = y then 1 else 0

/-- `opIszero`. -/
def opIszero : List UInt8 → ℕ → Scope S → Option (ExecResult S) := unaryOp fun x => if x = 0 then 1 else 0

/-- `opAnd`. -/
def opAnd : List UInt8 → ℕ → Scope S → Option (ExecResult S) := binaryOp fun x y => x &&& y

/-- `opOr`. -/
def opOr : List UInt8 → ℕ → Scope S → Option (ExecResult S) := binaryOp fun x y => x ||| y

/-- `opXor`. -/
def opXor : List UInt8 → ℕ → Scope S → Option (ExecResult S) := binaryOp fun x y => x ^^^ y

/-- `opByte`: the popped item is the position, the item under it the value. -/
def opByte : List UInt8 → ℕ → Scope S → Option (ExecResult S) := binaryOp fun th val => Uint256.byte val th

/-- `opAddmod`: the modulus is the third item. -/
def opAddmod : List UInt8 → ℕ → Scope S → Option (ExecResult S) :=
  ternaryOp fun x y z => if z = 0 then 0 else Uint256.addMod x y z

/-- `opMulmod`: the modulus is the third item. -/
def opMulmod : List UInt8 → ℕ → Scope S → Option (ExecResult S) :=
  ternaryOp fun x y z => if z = 0 then 0 else Uint256.mulMod x y z

/-- `opSHL`: the popped item is the shift, the item under it the value. -/
def opSHL : List UInt8 → ℕ → Scope S → Option (ExecResult S) :=
  binaryOp fun shift value => if shift.toNat < 256 then value <<< shift.toNat else 0

/-- `opSHR`. -/
def opSHR : List UInt8 → ℕ → Scope S → Option (ExecResult S) :=
  binaryOp fun shift value => if shift.toNat < 256 then value >>> shift.toNat else 0

/-- `opSAR`: a shift beyond `255` leaves the sign in every bit, any other `SRsh`. -/
def opSAR : List UInt8 → ℕ → Scope S → Option (ExecResult S) :=
  binaryOp fun shift value =>
    if shift.toNat > 255 then (if value.msb then BitVec.allOnes 256 else 0)
    else value.sshiftRight shift.toNat

/-! ### The other instructions of the stack and the memory -/

/-- `opPop`. -/
def opPop (_ : List UInt8) (pc : ℕ) (sc : Scope S) : Option (ExecResult S) :=
  match sc.stack with
  | _ :: stack => some (.next pc { sc with stack })
  | [] => none

/-- `opMload`: the 32 bytes of the memory at the low 64 bits of the top item, read as an `int64`, replace it. -/
def opMload (_ : List UInt8) (pc : ℕ) (sc : Scope S) : Option (ExecResult S) :=
  match sc.stack with
  | v :: stack =>
    (sc.mem.getPtr (toInt64 (v.toNat % u64)) 32).map fun b =>
      .next pc { sc with stack := Uint256.setBytes b :: stack }
  | [] => none

/-- `opMstore8`: the low byte of the second item is stored at the low 64 bits of the top one. -/
def opMstore8 (_ : List UInt8) (pc : ℕ) (sc : Scope S) : Option (ExecResult S) :=
  match sc.stack with
  | off :: val :: stack =>
    (sc.mem.setByte (off.toNat % u64) (UInt8.ofNat val.toNat)).map fun mem => .next pc { sc with stack, mem }
  | _ => none

/-- `opPc`. -/
def opPc : List UInt8 → ℕ → Scope S → Option (ExecResult S) := pushOp fun pc _ => BitVec.ofNat 256 pc

/-- `opMsize`. -/
def opMsize : List UInt8 → ℕ → Scope S → Option (ExecResult S) := pushOp fun _ sc => BitVec.ofNat 256 sc.mem.len

/-- `opGas`: the gas left after this instruction's own. -/
def opGas : List UInt8 → ℕ → Scope S → Option (ExecResult S) := pushOp fun _ sc => BitVec.ofNat 256 sc.gas

/-- `opJumpdest`. -/
def opJumpdest (_ : List UInt8) (pc : ℕ) (sc : Scope S) : Option (ExecResult S) := some (.next pc sc)

/-- `opPush0`. -/
def opPush0 : List UInt8 → ℕ → Scope S → Option (ExecResult S) := pushOp fun _ _ => 0

/-- `makePush(size, pushByteSize)`: the `pushByteSize` bytes of the code after the instruction, cut at its end and
padded with zeros on the right; the program counter moves over them. -/
def makePush (size pushByteSize : ℕ) (code : List UInt8) (pc : ℕ) (sc : Scope S) : Option (ExecResult S) :=
  let codeLen := code.length
  let startMin := min (pc + 1) codeLen
  let endMin := if startMin + pushByteSize ≥ codeLen then codeLen else startMin + pushByteSize
  let integer := Uint256.setBytes (rightPadBytes ((code.drop startMin).take (endMin - startMin)) pushByteSize)
  some (.next (pc + size) { sc with stack := integer :: sc.stack })

/-- `makeDup(size)`. -/
def makeDup (size : ℕ) (_ : List UInt8) (pc : ℕ) (sc : Scope S) : Option (ExecResult S) :=
  (dup sc.stack size).map fun stack => .next pc { sc with stack }

/-- `makeSwap(size)`: `Swap(size + 1)`, so that `SWAP1` exchanges the top two items. -/
def makeSwap (size : ℕ) (_ : List UInt8) (pc : ℕ) (sc : Scope S) : Option (ExecResult S) :=
  (swap sc.stack (size + 1)).map fun stack => .next pc { sc with stack }

/-! ### Memory sizes and gas -/

/-- `memoryMLoad`. -/
def memoryMLoad (stack : List (BitVec 256)) : ℕ × Bool := calcMemSize64WithUint (back stack 0) 32

/-- `memoryMStore8`. -/
def memoryMStore8 (stack : List (BitVec 256)) : ℕ × Bool := calcMemSize64WithUint (back stack 0) 1

/-- `gasMLoad`. -/
def gasMLoad : GasFunc S := pureMemoryGascost

/-- `gasMStore8`. -/
def gasMStore8 : GasFunc S := pureMemoryGascost

/-- `params.ExpGas`. -/
def expGas : ℕ := 10

/-- `params.ExpByteFrontier`. -/
def expByteFrontier : ℕ := 10

/-- `params.ExpByteEIP160`. -/
def expByteEIP160 : ℕ := 50

/-- The dynamic gas of `EXP`: `expByte` for each byte of the exponent, the second item, and `ExpGas`. -/
def gasExp (expByte : ℕ) : GasFunc S := fun sc _ =>
  let expByteLen := (Uint256.bitLen (back sc.stack 1) + 7) / 8
  let gas := expByteLen * expByte % u64
  let (gas, overflow) := safeAdd gas expGas
  if overflow then .error .errGasUintOverflow else .ok (gas, sc)

/-- `gasExpFrontier`. -/
def gasExpFrontier : GasFunc S := gasExp expByteFrontier

/-- `gasExpEIP160`. -/
def gasExpEIP160 : GasFunc S := gasExp expByteEIP160

/-- `GasQuickStep`. -/
def gasQuickStep : ℕ := 2

/-- `GasFastStep`. -/
def gasFastStep : ℕ := 5

/-- `GasMidStep`. -/
def gasMidStep : ℕ := 8

/-- `params.JumpdestGas`. -/
def jumpdestGas : ℕ := 1

/-! ### The entries of the jump tables -/

/-- An entry with no dynamic gas and no memory, whose `maxStack` `validateAndFillMaxStack` fills in from the items
it pops and pushes. -/
def stackOperation (execute : List UInt8 → ℕ → Scope S → Option (ExecResult S)) (constantGas numPop numPush : ℕ) :
    Operation S :=
  { execute, constantGas, dynamicGas := none, numPop, maxStack := maxStack numPop numPush, memorySize := none }

/-- The entry of `EXP` from Spurious Dragon on. -/
def expOperation : Operation S :=
  { execute := opExp, constantGas := 0, dynamicGas := some gasExpEIP160, numPop := 2, maxStack := maxStack 2 1,
    memorySize := none }

/-- The entry of `MLOAD`. -/
def mloadOperation : Operation S :=
  { execute := opMload, constantGas := gasFastestStep, dynamicGas := some gasMLoad, numPop := 1,
    maxStack := maxStack 1 1, memorySize := some memoryMLoad }

/-- The entry of `MSTORE8`. -/
def mstore8Operation : Operation S :=
  { execute := opMstore8, constantGas := gasFastestStep, dynamicGas := some gasMStore8, numPop := 2,
    maxStack := maxStack 2 0, memorySize := some memoryMStore8 }

/-- The entry of `PUSH`n for `n` from `2`: `makePush(n, n)`. -/
def pushOperation (n : ℕ) : Operation S := stackOperation (makePush n n) gasFastestStep 0 1

/-- The entry of `DUP`n: `n` items checked, `n + 1` left. -/
def dupOperation (n : ℕ) : Operation S := stackOperation (makeDup n) gasFastestStep n (n + 1)

/-- The entry of `SWAP`n: `n + 1` items checked and left. -/
def swapOperation (n : ℕ) : Operation S := stackOperation (makeSwap n) gasFastestStep (n + 1) (n + 1)

/-- The jump table of the instructions above, with `STOP`, `MSTORE` and `PUSH1`; the other slots unassigned. -/
def stackJumpTable (op : UInt8) : Operation S :=
  match op with
  | 0x00 => stopOperation
  | 0x01 => stackOperation opAdd gasFastestStep 2 1
  | 0x02 => stackOperation opMul gasFastStep 2 1
  | 0x03 => stackOperation opSub gasFastestStep 2 1
  | 0x04 => stackOperation opDiv gasFastStep 2 1
  | 0x05 => stackOperation opSdiv gasFastStep 2 1
  | 0x06 => stackOperation opMod gasFastStep 2 1
  | 0x07 => stackOperation opSmod gasFastStep 2 1
  | 0x08 => stackOperation opAddmod gasMidStep 3 1
  | 0x09 => stackOperation opMulmod gasMidStep 3 1
  | 0x0a => expOperation
  | 0x0b => stackOperation opSignExtend gasFastStep 2 1
  | 0x10 => stackOperation opLt gasFastestStep 2 1
  | 0x11 => stackOperation opGt gasFastestStep 2 1
  | 0x12 => stackOperation opSlt gasFastestStep 2 1
  | 0x13 => stackOperation opSgt gasFastestStep 2 1
  | 0x14 => stackOperation opEq gasFastestStep 2 1
  | 0x15 => stackOperation opIszero gasFastestStep 1 1
  | 0x16 => stackOperation opAnd gasFastestStep 2 1
  | 0x17 => stackOperation opOr gasFastestStep 2 1
  | 0x18 => stackOperation opXor gasFastestStep 2 1
  | 0x19 => stackOperation opNot gasFastestStep 1 1
  | 0x1a => stackOperation opByte gasFastestStep 2 1
  | 0x1b => stackOperation opSHL gasFastestStep 2 1
  | 0x1c => stackOperation opSHR gasFastestStep 2 1
  | 0x1d => stackOperation opSAR gasFastestStep 2 1
  | 0x50 => stackOperation opPop gasQuickStep 1 0
  | 0x51 => mloadOperation
  | 0x52 => mstoreOperation
  | 0x53 => mstore8Operation
  | 0x58 => stackOperation opPc gasQuickStep 0 1
  | 0x59 => stackOperation opMsize gasQuickStep 0 1
  | 0x5a => stackOperation opGas gasQuickStep 0 1
  | 0x5b => stackOperation opJumpdest jumpdestGas 0 0
  | 0x5f => stackOperation opPush0 gasQuickStep 0 1
  | 0x60 => push1Operation
  | op =>
    if 0x61 ≤ op ∧ op ≤ 0x7f then pushOperation (op.toNat - 0x5f)
    else if 0x80 ≤ op ∧ op ≤ 0x8f then dupOperation (op.toNat - 0x7f)
    else if 0x90 ≤ op ∧ op ≤ 0x9f then swapOperation (op.toNat - 0x8f)
    else undefinedOperation

end AmazeChain.Vm
