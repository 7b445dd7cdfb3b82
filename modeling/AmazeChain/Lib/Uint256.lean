import AmazeChain.Lib.BigEndian

/-!
# `uint256.Int`

The unsigned 256-bit integers of `github.com/holiman/uint256`, as `BitVec 256`.  Addition, subtraction and
multiplication wrap as those of `BitVec` do, and the bitwise operations, the shifts (`Lsh`, `Rsh`, `SRsh`) and
the comparisons (`Lt`, `Gt`, `Slt`, `Sgt`, `Eq`) are those of `BitVec`; `SDiv` is `BitVec.sdiv`, which rounds
towards zero and gives zero for a zero divisor.  Below are the operations whose results the library defines
apart: a division or a remainder by zero is zero, `AddMod` and `MulMod` reduce the exact sum and product, and
`SMod` takes the sign of the dividend.
-/

namespace Uint256

/-- `Div`: zero for a zero divisor. -/
def div (x y : BitVec 256) : BitVec 256 := if y = 0 then 0 else x / y

/-- `Mod`: zero for a zero modulus. -/
def mod (x y : BitVec 256) : BitVec 256 := if y = 0 then 0 else x % y

/-- `Neg` of a negative number: its absolute value. -/
def abs (x : BitVec 256) : BitVec 256 := if x.msb then -x else x

/-- `SMod`: the remainder of the absolute values, with the sign of `x`. -/
def smod (x y : BitVec 256) : BitVec 256 :=
  let z := mod (abs x) (abs y)
  if x.msb then -z else z

/-- `AddMod`: the exact sum modulo `m`, zero for a zero modulus. -/
def addMod (x y m : BitVec 256) : BitVec 256 :=
  if m = 0 then 0 else BitVec.ofNat 256 ((x.toNat + y.toNat) % m.toNat)

/-- `MulMod`: the exact product modulo `m`, zero for a zero modulus. -/
def mulMod (x y m : BitVec 256) : BitVec 256 :=
  if m = 0 then 0 else BitVec.ofNat 256 (x.toNat * y.toNat % m.toNat)

/-- `Exp`: the power modulo `2 ^ 256`. -/
def exp (base exponent : BitVec 256) : BitVec 256 := base ^ exponent.toNat

/-- `ExtendSign(x, byteNum)`: `x` read as a signed number of `byteNum + 1` bytes, for `byteNum` up to `31`. -/
def extendSign (x byteNum : BitVec 256) : BitVec 256 :=
  if byteNum.toNat > 31 then x
  else
    let bit := byteNum.toNat * 8 + 7
    let mask : BitVec 256 := (1 <<< bit) - 1
    if x.getLsbD bit then x ||| ~~~mask else x &&& mask

/-- `Byte(n)`: the byte of `z` at position `n` counted from the most significant, zero from `32` on. -/
def byte (z n : BitVec 256) : BitVec 256 :=
  if n.toNat < 32 then (z >>> (8 * (31 - n.toNat))) &&& 0xff else 0

/-- `BitLen`: the number of bits up to the highest one. -/
def bitLen (x : BitVec 256) : ℕ := if x = 0 then 0 else x.toNat.log2 + 1

/-- `SetBytes`: the big-endian number the bytes spell, its last `32` bytes for a longer slice. -/
def setBytes (b : List UInt8) : BitVec 256 := BitVec.ofNat 256 (BigEndian.toNat b)

end Uint256
