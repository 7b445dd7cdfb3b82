import AmazeChain.Vm.Call
import AmazeChain.Lib.TwosComplement
import AmazeChain.Txspool.Tx

/-!
# The memory of a frame and the price of its expansion

`vm.Memory` (`internal/vm/memory.go`), `ToWordSize` (`common.go`) and `memoryGasCost` (`gas_table.go`).  The
expansion to `w` words costs `memoryFee w = 3 w + w² / 512` in all; `memoryGasCost` charges the part of it not
yet paid, which it keeps in `lastGasCost`.

A memory is `Charged` when it holds whole words, no more than the largest size `memoryGasCost` prices, and its
`lastGasCost` is the fee of all of them.  On a charged memory `memoryGasCost` computes without a `uint64` wrap the
difference of `memoryFee` between the new and the old word count, and `ErrGasUintOverflow` above
`0x1FFFFFFFE0` (`memoryGasCost_of_charged`, `memoryGasCost_of_gt`); resizing to the priced size then gives a
charged memory again (`Charged.expand`).  The bytes of the store do not matter here; `Resize` appends zeros.
-/

namespace AmazeChain.Vm

open EVM (VmError)
open TwosComplement
open Txspool (u64)

/-- `vm.Memory`: the store and the expansion fee charged so far. -/
structure Memory where
  store : List UInt8
  lastGasCost : ℕ
  deriving DecidableEq, Repr

namespace Memory

/-- `Len`. -/
def len (m : Memory) : ℕ := m.store.length

/-- `Reset`: the store is emptied and nothing is charged. -/
def reset (_ : Memory) : Memory := ⟨[], 0⟩

/-- `Resize`: the store grows with zeros to `size`, which is read as an `int`. -/
def resize (m : Memory) (size : ℕ) : Memory :=
  let l := toInt64 size - m.len
  if l ≤ 0 then m else { m with store := m.store ++ List.replicate l.toNat 0 }

@[simp] theorem len_reset (m : Memory) : m.reset.len = 0 := rfl

@[simp] theorem lastGasCost_reset (m : Memory) : m.reset.lastGasCost = 0 := rfl

@[simp] theorem lastGasCost_resize (m : Memory) (size : ℕ) : (m.resize size).lastGasCost = m.lastGasCost := by
  unfold resize
  dsimp only
  split <;> rfl

theorem len_resize (m : Memory) {size : ℕ} (h : size < 2 ^ 63) : (m.resize size).len = max m.len size := by
  have hint : toInt64 size = size := by
    unfold toInt64
    rw [if_pos h]
  unfold resize
  dsimp only
  rw [hint]
  split
  · omega
  · simp only [len, List.length_append, List.length_replicate]
    omega

end Memory

/-- `params.MemoryGas`. -/
def memoryGas : ℕ := 3

/-- `params.QuadCoeffDiv`. -/
def quadCoeffDiv : ℕ := 512

/-- The largest size `memoryGasCost` prices: `0xFFFFFFFF` words. -/
def maxMemorySize : ℕ := 0x1FFFFFFFE0

/-- `ToWordSize`: the words of 32 bytes that hold `size` bytes. -/
def toWordSize (size : ℕ) : ℕ :=
  if size > (u64 - 1) - 31 then (u64 - 1) / 32 + 1 else (size + 31) / 32

/-- `memoryGasCost`: the fee of expanding the memory to `newMemSize` bytes, less what has been charged, in
`uint64`; the memory keeps the new total in `lastGasCost`. -/
def memoryGasCost (mem : Memory) (newMemSize : ℕ) : Except VmError (ℕ × Memory) :=
  if newMemSize = 0 then .ok (0, mem)
  -- a word count above 0xFFFFFFFF would overflow the square
  else if newMemSize > maxMemorySize then .error .errGasUintOverflow
  else
    let newMemSizeWords := toWordSize newMemSize
    let newMemSize := newMemSizeWords * 32 % u64
    if newMemSize > mem.len then
      let square := newMemSizeWords * newMemSizeWords % u64
      let linCoef := newMemSizeWords * memoryGas % u64
      let quadCoef := square / quadCoeffDiv
      let newTotalFee := (linCoef + quadCoef) % u64
      let fee := (newTotalFee + (u64 - mem.lastGasCost % u64)) % u64
      .ok (fee, { mem with lastGasCost := newTotalFee })
    else .ok (0, mem)

/-- The fee of a memory of `w` words. -/
def memoryFee (w : ℕ) : ℕ := w * memoryGas + w * w / quadCoeffDiv

theorem memoryFee_mono : Monotone memoryFee := by
  intro w w' h
  unfold memoryFee
  exact Nat.add_le_add (Nat.mul_le_mul_right _ h) (Nat.div_le_div_right (Nat.mul_le_mul h h))

theorem memoryFee_lt {w : ℕ} (h : w ≤ 0xFFFFFFFF) : memoryFee w < u64 := by
  have hsq : w * w ≤ 0xFFFFFFFF * 0xFFFFFFFF := Nat.mul_le_mul h h
  unfold memoryFee memoryGas quadCoeffDiv u64
  generalize w * w = q at hsq
  omega

theorem toWordSize_of_le {size : ℕ} (h : size ≤ maxMemorySize) : toWordSize size = (size + 31) / 32 := by
  unfold toWordSize maxMemorySize u64 at *
  rw [if_neg (by omega)]

theorem toWordSize_le {size : ℕ} (h : size ≤ maxMemorySize) : toWordSize size ≤ 0xFFFFFFFF := by
  rw [toWordSize_of_le h]
  unfold maxMemorySize at h
  omega

/-- A memory as `Run` keeps it between instructions. -/
structure Memory.Charged (m : Memory) : Prop where
  words : m.len % 32 = 0
  bound : m.len ≤ maxMemorySize
  cost : m.lastGasCost = memoryFee (m.len / 32)

theorem Memory.Charged.reset (m : Memory) : m.reset.Charged := by
  refine ⟨rfl, Nat.zero_le _, ?_⟩
  rw [Memory.lastGasCost_reset, Memory.len_reset]
  rfl

theorem memoryGasCost_of_gt (m : Memory) {n : ℕ} (h : maxMemorySize < n) :
    memoryGasCost m n = .error .errGasUintOverflow := by
  unfold memoryGasCost
  rw [if_neg (by unfold maxMemorySize at h; omega), if_pos h]

/-- On a charged memory, `memoryGasCost` charges the difference of `memoryFee` between the word count it is
asked for, if larger, and the present one, and records the larger fee. -/
theorem memoryGasCost_of_charged {m : Memory} (hm : m.Charged) {n : ℕ} (hn : n ≤ maxMemorySize) :
    memoryGasCost m n = .ok (memoryFee (max (m.len / 32) (toWordSize n)) - memoryFee (m.len / 32),
      { m with lastGasCost := memoryFee (max (m.len / 32) (toWordSize n)) }) := by
  have hw := toWordSize_le hn
  have hwlen : m.len / 32 ≤ 0xFFFFFFFF := by
    have := hm.bound
    unfold maxMemorySize at this
    omega
  -- the memory unchanged, as the record Go leaves alone
  have hsame : { m with lastGasCost := memoryFee (m.len / 32) } = m := by
    rw [← hm.cost]
  unfold memoryGasCost
  split
  · rename_i h0
    subst h0
    rw [show toWordSize 0 = 0 from rfl, Nat.max_zero, Nat.sub_self, hsame]
  · rw [if_neg (by omega)]
    dsimp only
    have h32 : toWordSize n * 32 % u64 = toWordSize n * 32 := by
      unfold u64
      omega
    rw [h32]
    split
    · rename_i hgt
      -- the memory grows: every product fits in `uint64`, and the old fee is below the new one
      have hmax : max (m.len / 32) (toWordSize n) = toWordSize n := by
        have := hm.words
        omega
      have hsq : toWordSize n * toWordSize n ≤ 0xFFFFFFFF * 0xFFFFFFFF := Nat.mul_le_mul hw hw
      have hfee : (toWordSize n * memoryGas % u64 + toWordSize n * toWordSize n % u64 / quadCoeffDiv) % u64 =
          memoryFee (toWordSize n) := by
        have hlt := memoryFee_lt hw
        unfold memoryFee memoryGas quadCoeffDiv u64 at *
        generalize toWordSize n * toWordSize n = q at *
        omega
      have hle : memoryFee (m.len / 32) ≤ memoryFee (toWordSize n) := memoryFee_mono (by omega)
      have hlt := memoryFee_lt hw
      rw [hmax, hfee, hm.cost, Nat.mod_eq_of_lt (lt_of_le_of_lt hle hlt)]
      congr 2
      unfold u64 at hlt ⊢
      omega
    · rename_i hle
      have hmax : max (m.len / 32) (toWordSize n) = m.len / 32 := by
        have := hm.words
        omega
      rw [hmax, Nat.sub_self, hsame]

/-- Resizing a charged memory to a priced size of whole words, after `memoryGasCost` charged it, gives a
charged memory, and the fee charged is the difference of `memoryFee` between the two word counts. -/
theorem Memory.Charged.expand {m m' : Memory} (hm : m.Charged) {n fee : ℕ} (hn32 : n % 32 = 0)
    (hn : n ≤ maxMemorySize) (h : memoryGasCost m n = .ok (fee, m')) :
    (m'.resize n).Charged ∧ m.len ≤ (m'.resize n).len ∧
      fee = memoryFee ((m'.resize n).len / 32) - memoryFee (m.len / 32) := by
  rw [memoryGasCost_of_charged hm hn, Except.ok.injEq, Prod.mk.injEq] at h
  obtain ⟨rfl, rfl⟩ := h
  have hsmall : n < 2 ^ 63 := by
    unfold maxMemorySize at hn
    omega
  have hlen : ({ m with lastGasCost := memoryFee (max (m.len / 32) (toWordSize n)) } : Memory).len = m.len := rfl
  rw [Memory.len_resize _ hsmall, hlen]
  have hwords : toWordSize n = n / 32 := by
    rw [toWordSize_of_le hn]
    omega
  have hdiv : max m.len n / 32 = max (m.len / 32) (toWordSize n) := by
    have := hm.words
    rw [hwords]
    omega
  refine ⟨⟨?_, ?_, ?_⟩, le_max_left _ _, by rw [hdiv]⟩
  · rw [Memory.len_resize _ hsmall, hlen]
    have := hm.words
    omega
  · rw [Memory.len_resize _ hsmall, hlen]
    exact max_le hm.bound hn
  · rw [Memory.lastGasCost_resize, Memory.len_resize _ hsmall, hlen, hdiv]

end AmazeChain.Vm
