import Mathlib.Data.BitVec

/-!
# Bitmaps in 64-bit words

A bitmap kept as a list of 64-bit words, bit `i` being bit `i % 64` of word `i / 64` (`bitAt`).  `orWord`
is `bits[idx] |= v`, which fails past the end of the list.  `lowMask k` is the word `1 << k | (1 << k) - 1`
of the low `k + 1` bits, and `markRun` sets the run of `n ≤ 32` bits from `s` by or-ing that mask, shifted,
into the word of `s` and, when `shift + shift > 64`, the spill into the next word.  `bitAt_markRun` says
that this sets exactly the run, given the words it touches.
-/

namespace WordBitmap

/-- Bit `i` of a bitmap: bit `i % 64` of word `i / 64`, unset past the end. -/
def bitAt (bits : List (BitVec 64)) (i : ℕ) : Bool := (bits.getD (i / 64) 0).getLsbD (i % 64)

/-- `bits[idx] |= v`: none past the end. -/
def orWord (bits : List (BitVec 64)) (idx : ℕ) (v : BitVec 64) : Option (List (BitVec 64)) :=
  if h : idx < bits.length then some (bits.set idx (bits[idx] ||| v)) else none

/-- The low `k + 1` bits: a bit smeared to the right. -/
def lowMask (k : ℕ) : BitVec 64 := (1#64 <<< k) ||| ((1#64 <<< k) - 1)

/-- The run of the low `k + 1` bits of a mask put at `s`: the word of `s`, then the spill into the next
word when the shift is past half a word. -/
def markRun (bits : List (BitVec 64)) (s k : ℕ) : Option (List (BitVec 64)) :=
  (orWord bits (s / 64) (lowMask k <<< (s % 64))).bind fun bits =>
    if s % 64 + s % 64 > 64 then orWord bits (s / 64 + 1) (lowMask k >>> (64 - s % 64)) else some bits

@[simp] theorem bitAt_replicate_zero (n i : ℕ) : bitAt (List.replicate n 0) i = false := by
  unfold bitAt
  rw [List.getD_eq_getElem?_getD, List.getElem?_replicate]
  split <;> simp

theorem orWord_eq_some {bits : List (BitVec 64)} {idx : ℕ} (h : idx < bits.length) (v : BitVec 64) :
    orWord bits idx v = some (bits.set idx (bits[idx] ||| v)) := dif_pos h

theorem length_of_orWord {bits bits' : List (BitVec 64)} {idx : ℕ} {v : BitVec 64}
    (h : orWord bits idx v = some bits') : bits'.length = bits.length := by
  unfold orWord at h
  split at h
  · cases h
    exact List.length_set
  · cases h

/-- Or-ing a word sets the bits of that word that are set in it. -/
theorem bitAt_of_orWord {bits bits' : List (BitVec 64)} {idx : ℕ} {v : BitVec 64}
    (h : orWord bits idx v = some bits') (i : ℕ) :
    bitAt bits' i = (bitAt bits i || (decide (i / 64 = idx) && v.getLsbD (i % 64))) := by
  unfold orWord at h
  split at h
  · rename_i hidx
    cases h
    unfold bitAt
    rw [List.getD_eq_getElem?_getD, List.getD_eq_getElem?_getD, List.getElem?_set]
    by_cases hi : i / 64 = idx
    · subst hi
      simp [hidx, BitVec.getLsbD_or]
    · simp [Ne.symm hi, hi]
  · cases h

theorem getLsbD_lowMask {k : ℕ} (hk : k < 64) (j : ℕ) : (lowMask k).getLsbD j = decide (j ≤ k) := by
  -- the low part is `2 ^ k - 1`
  have hlow : (1#64 <<< k) - 1 = BitVec.ofNat 64 (2 ^ k - 1) := by
    apply BitVec.eq_of_toNat_eq
    have hpow : 2 ^ k < 2 ^ 64 := Nat.pow_lt_pow_right (by decide) hk
    have hpos : 0 < 2 ^ k := Nat.two_pow_pos k
    simp only [BitVec.toNat_sub, BitVec.toNat_shiftLeft, BitVec.toNat_ofNat]
    rw [show (1 : BitVec 64).toNat = 1 from rfl, Nat.mod_eq_of_lt (show 1 < 2 ^ 64 by decide), Nat.shiftLeft_eq,
      Nat.one_mul, Nat.mod_eq_of_lt hpow, Nat.mod_eq_of_lt (show 2 ^ k - 1 < 2 ^ 64 by omega)]
    omega
  unfold lowMask
  rw [BitVec.getLsbD_or, hlow, BitVec.getLsbD_shiftLeft, BitVec.getLsbD_one, BitVec.getLsbD_ofNat,
    Nat.testBit_two_pow_sub_one, Bool.eq_iff_iff]
  simp only [Bool.or_eq_true, Bool.and_eq_true, decide_eq_true_eq, Bool.not_eq_true', decide_eq_false_iff_not]
  omega

/-- `w & (1 << j) == 0` reads bit `j` of `w` as unset. -/
theorem and_shiftLeft_one_beq_zero (w : BitVec 64) {j : ℕ} (hj : j < 64) :
    (w &&& (1#64 <<< j) == 0) = !w.getLsbD j := by
  have hbit : ∀ i, (w &&& (1#64 <<< j)).getLsbD i = (w.getLsbD i && decide (i = j) && decide (i < 64)) := by
    intro i
    rw [BitVec.getLsbD_and, BitVec.getLsbD_shiftLeft, BitVec.getLsbD_one]
    by_cases hij : i = j
    · subst hij
      simp [hj]
    · by_cases hlt : i < j
      · simp [hij, hlt]
      · simp [hij, hlt]
        omega
  cases hw : w.getLsbD j with
  | false =>
    have hzero : w &&& (1#64 <<< j) = 0#64 := BitVec.eq_of_getLsbD_eq fun i _ => by
      rw [hbit, BitVec.getLsbD_zero]
      by_cases hij : i = j
      · subst hij
        simp [hw]
      · simp [hij]
    simp [hzero]
  | true =>
    have hne : w &&& (1#64 <<< j) ≠ 0#64 := fun h => by
      have := hbit j
      rw [h, BitVec.getLsbD_zero, hw] at this
      simp [hj] at this
    simp [hne]

section Run

variable {bits : List (BitVec 64)} {s k : ℕ}

/-- `markRun` finds the words it writes: the word of `s`, and the next one when it spills. -/
theorem markRun_isSome (hidx : s / 64 < bits.length) (hspill : s % 64 + s % 64 > 64 → s / 64 + 1 < bits.length) :
    ∃ bits', markRun bits s k = some bits' ∧ bits'.length = bits.length := by
  unfold markRun
  rw [orWord_eq_some hidx]
  simp only [Option.bind_some]
  split
  · rename_i h
    have hlen : (bits.set (s / 64) (bits[s / 64] ||| lowMask k <<< (s % 64))).length = bits.length :=
      List.length_set
    refine ⟨_, orWord_eq_some (by rw [hlen]; exact hspill h) _, ?_⟩
    rw [List.length_set, hlen]
  · exact ⟨_, rfl, List.length_set⟩

/-- `markRun` sets exactly the bits `s, …, s + k` and keeps the others. -/
theorem bitAt_markRun (hk : k < 32) {bits' : List (BitVec 64)} (h : markRun bits s k = some bits') (i : ℕ) :
    bitAt bits' i = (bitAt bits i || decide (s ≤ i ∧ i ≤ s + k)) := by
  unfold markRun at h
  obtain ⟨bits₁, h₁, h₂⟩ := Option.bind_eq_some_iff.1 h
  have hmask := fun j => getLsbD_lowMask (k := k) (by omega) j
  have hi : i = 64 * (i / 64) + i % 64 := (Nat.div_add_mod i 64).symm
  have hs : s = 64 * (s / 64) + s % 64 := (Nat.div_add_mod s 64).symm
  have hlt : i % 64 < 64 := Nat.mod_lt i (by decide)
  -- the bits of the word of `s`, shifted up by `s % 64`
  have hword : (decide (i / 64 = s / 64) && (lowMask k <<< (s % 64)).getLsbD (i % 64)) =
      decide (i / 64 = s / 64 ∧ s ≤ i ∧ i ≤ s + k) := by
    rw [BitVec.getLsbD_shiftLeft, hmask, Bool.eq_iff_iff]
    simp only [Bool.and_eq_true, decide_eq_true_eq, Bool.not_eq_true', decide_eq_false_iff_not]
    omega
  split at h₂
  · -- the run spills into the next word
    rename_i hspill
    have hnext : (decide (i / 64 = s / 64 + 1) && (lowMask k >>> (64 - s % 64)).getLsbD (i % 64)) =
        decide (i / 64 = s / 64 + 1 ∧ s ≤ i ∧ i ≤ s + k) := by
      rw [BitVec.getLsbD_ushiftRight, hmask, Bool.eq_iff_iff]
      simp only [Bool.and_eq_true, decide_eq_true_eq]
      omega
    rw [bitAt_of_orWord h₂, bitAt_of_orWord h₁, hword, hnext, Bool.or_assoc]
    congr 1
    rw [Bool.eq_iff_iff]
    simp only [Bool.or_eq_true, decide_eq_true_eq]
    omega
  · -- the run ends in the word of `s`
    rename_i hspill
    cases h₂
    rw [bitAt_of_orWord h₁, hword]
    congr 1
    rw [Bool.eq_iff_iff]
    simp only [decide_eq_true_eq]
    omega

end Run

end WordBitmap
