import AmazeChain.APos.Header

/-!
# EIP-1559 header arithmetic

The bounds of `misc.CalcBaseFee` and `miner.CalcGasLimit`, and what `misc.VerifyGaslimit` makes of the
second.

* On a London parent with a gas limit of at least `MinGasLimit` and a base fee `b`, `CalcBaseFee` never
  panics and is `nextBaseFee b t u` for the gas target `t = GasLimit / 2` and the gas used `u`
  (`calcBaseFee_of_london`): `b` at the target, at most `b / 8` less below it and at least `b + 1` above it,
  and monotone in `u`.  The rise is at most `max 1 (b / 8)` while `u ≤ 2 t`, that is for every gas used when
  the gas limit is even; at an odd gas limit the gas used `2 t + 1` is `t + 1` over the target and can lift
  the fee by more.
* `CalcGasLimit p ceil` moves `p` towards `max ceil MinGasLimit` by less than `p / GasLimitBoundDivisor`, and
  `VerifyGaslimit` accepts the result, as long as `p + p / GasLimitBoundDivisor` fits in `uint64`
  (`calcGasLimit_movesToward`, `verifyGaslimit_calcGasLimit`).  A gas limit doubled at the London transition
  need not: the sum then wraps and the new gas limit falls, possibly below `MinGasLimit`.
-/

set_option linter.unusedSectionVars false

namespace AmazeChain.APos

open Txspool (u64 u256 ChainConfig)
open TwosComplement

/-! ### The base fee -/

/-- The base fee after a London parent with base fee `b`, gas target `t` and gas used `u`. -/
def nextBaseFee (b t u : ℕ) : ℕ :=
  if u = t then b
  else if u > t then b + max (b * (u - t) / t / baseFeeChangeDenominator) 1
  else b - b * (t - u) / t / baseFeeChangeDenominator

theorem nextBaseFee_self (b t : ℕ) : nextBaseFee b t t = b := if_pos rfl

theorem nextBaseFee_of_gt {b t u : ℕ} (h : t < u) :
    nextBaseFee b t u = b + max (b * (u - t) / t / baseFeeChangeDenominator) 1 := by
  rw [nextBaseFee, if_neg (by omega), if_pos h]

theorem nextBaseFee_of_lt {b t u : ℕ} (h : u < t) :
    nextBaseFee b t u = b - b * (t - u) / t / baseFeeChangeDenominator := by
  rw [nextBaseFee, if_neg (by omega), if_neg (by omega)]

/-- A fraction `d / t ≤ 1` of `b`, rounded down, is at most `b`. -/
theorem mul_div_le_of_le {b d t : ℕ} (h : d ≤ t) : b * d / t ≤ b := by
  apply Nat.div_le_of_le_mul
  calc b * d ≤ b * t := Nat.mul_le_mul_left b h
    _ = t * b := Nat.mul_comm b t

theorem nextBaseFee_le_of_le {b t u : ℕ} (h : u ≤ t) : nextBaseFee b t u ≤ b := by
  rcases Nat.lt_or_eq_of_le h with h | rfl
  · rw [nextBaseFee_of_lt h]
    exact Nat.sub_le _ _
  · rw [nextBaseFee_self]

theorem lt_nextBaseFee {b t u : ℕ} (h : t < u) : b < nextBaseFee b t u := by
  rw [nextBaseFee_of_gt h]
  have := le_max_right (b * (u - t) / t / baseFeeChangeDenominator) 1
  omega

/-- Above the target the fee rises by at least one and by the eighth of `b (u - t) / t`. -/
theorem nextBaseFee_above {b t u : ℕ} (h : t < u) :
    b + 1 ≤ nextBaseFee b t u ∧ nextBaseFee b t u ≤ b + max 1 (b * (u - t) / t / baseFeeChangeDenominator) := by
  refine ⟨lt_nextBaseFee h, ?_⟩
  rw [nextBaseFee_of_gt h, max_comm]

/-- At most `t` over the target the rise is at most `max 1 (b / 8)`. -/
theorem nextBaseFee_le_of_le_two_mul {b t u : ℕ} (h : t < u) (h2 : u ≤ 2 * t) :
    nextBaseFee b t u ≤ b + max 1 (b / baseFeeChangeDenominator) := by
  have hy : b * (u - t) / t ≤ b := mul_div_le_of_le (by omega)
  rw [nextBaseFee_of_gt h, max_comm]
  exact Nat.add_le_add_left (max_le_max le_rfl (Nat.div_le_div_right hy)) b

/-- Below the target the fee falls by at most `b / 8`. -/
theorem nextBaseFee_below {b t u : ℕ} (h : u < t) :
    b - b / baseFeeChangeDenominator ≤ nextBaseFee b t u ∧ nextBaseFee b t u ≤ b := by
  have hy : b * (t - u) / t / baseFeeChangeDenominator ≤ b / baseFeeChangeDenominator :=
    Nat.div_le_div_right (mul_div_le_of_le (by omega))
  rw [nextBaseFee_of_lt h]
  exact ⟨Nat.sub_le_sub_left hy b, Nat.sub_le _ _⟩

theorem nextBaseFee_mono (b t : ℕ) : Monotone (nextBaseFee b t) := by
  intro u u' huu'
  rcases lt_trichotomy u' t with hu' | rfl | hu'
  · -- both below the target: less gas under it, a smaller cut
    rw [nextBaseFee_of_lt (by omega), nextBaseFee_of_lt hu']
    apply Nat.sub_le_sub_left
    exact Nat.div_le_div_right (Nat.div_le_div_right (Nat.mul_le_mul_left b (by omega)))
  · rw [nextBaseFee_self]
    exact nextBaseFee_le_of_le huu'
  · rcases Nat.lt_or_ge t u with hu | hu
    · -- both above the target: more gas over it, a larger rise
      rw [nextBaseFee_of_gt hu, nextBaseFee_of_gt hu']
      apply Nat.add_le_add_left
      apply max_le_max _ le_rfl
      exact Nat.div_le_div_right (Nat.div_le_div_right (Nat.mul_le_mul_left b (by omega)))
    · exact (nextBaseFee_le_of_le hu).trans (lt_nextBaseFee hu').le

section

variable {Addr Hash : Type} [DecidableEq Hash]

/-- On a London parent with a base fee and a positive gas target, `CalcBaseFee` is `nextBaseFee`. -/
theorem calcBaseFee_of_london {config : ChainConfig} {parent : BlockHeader Addr Hash} {b : ℕ}
    (hl : config.isLondon (parent.number % u64) = true) (hb : parent.baseFee = some b)
    (ht : 0 < parent.gasLimit / elasticityMultiplier) :
    calcBaseFee config parent = some (nextBaseFee b (parent.gasLimit / elasticityMultiplier) parent.gasUsed) := by
  unfold calcBaseFee nextBaseFee
  simp only [hl, Bool.not_true, Bool.false_eq_true, ↓reduceIte, hb, Option.bind_some]
  split_ifs <;> first | rfl | omega

end

/-! ### The gas limit -/

/-- `r` lies between `p` and the target `d`, and strictly closer to `d` unless `p` is already there. -/
def MovesToward (p d r : ℕ) : Prop :=
  (p < d → p < r ∧ r ≤ d) ∧ (d < p → d ≤ r ∧ r < p) ∧ (d = p → r = p)

/-- Without a wrap of `p + delta`, `CalcGasLimit` adds or takes off `delta = p / GasLimitBoundDivisor - 1`,
clamped at the target. -/
theorem calcGasLimit_eq {p ceil : ℕ} (hp : minGasLimit ≤ p) (hno : p + p / gasLimitBoundDivisor ≤ u64) :
    calcGasLimit p ceil =
      if p < max ceil minGasLimit then min (p + (p / gasLimitBoundDivisor - 1)) (max ceil minGasLimit)
      else if max ceil minGasLimit < p then max (p - (p / gasLimitBoundDivisor - 1)) (max ceil minGasLimit)
      else p := by
  have hdiv : 4 ≤ p / gasLimitBoundDivisor := by
    unfold minGasLimit at hp
    unfold gasLimitBoundDivisor
    omega
  -- `p / GasLimitBoundDivisor - 1` does not wrap, since `p ≥ MinGasLimit`, and neither do the sums
  have hdelta : (p / gasLimitBoundDivisor + (u64 - 1)) % u64 = p / gasLimitBoundDivisor - 1 := by
    unfold u64 at hno ⊢
    omega
  have hup : (p + (p / gasLimitBoundDivisor - 1)) % u64 = p + (p / gasLimitBoundDivisor - 1) := by
    unfold u64 at hno ⊢
    omega
  have hdown : (p + (u64 - (p / gasLimitBoundDivisor - 1))) % u64 = p - (p / gasLimitBoundDivisor - 1) := by
    have hle : p / gasLimitBoundDivisor ≤ p := Nat.div_le_self _ _
    unfold u64 at hno ⊢
    omega
  unfold calcGasLimit
  dsimp only
  rw [hdelta, hup, hdown]
  split_ifs <;> omega

theorem calcGasLimit_movesToward {p ceil : ℕ} (hp : minGasLimit ≤ p) (hno : p + p / gasLimitBoundDivisor ≤ u64) :
    MovesToward p (max ceil minGasLimit) (calcGasLimit p ceil) ∧
      max p (calcGasLimit p ceil) - min p (calcGasLimit p ceil) < p / gasLimitBoundDivisor := by
  have hdiv : 4 ≤ p / gasLimitBoundDivisor := by
    unfold minGasLimit at hp
    unfold gasLimitBoundDivisor
    omega
  rw [calcGasLimit_eq hp hno]
  refine ⟨⟨fun h => ?_, fun h => ?_, fun h => ?_⟩, ?_⟩
  · rw [if_pos h]
    omega
  · rw [if_neg (by omega), if_pos h]
    omega
  · rw [if_neg (by omega), if_neg (by omega)]
  · split_ifs <;> omega

/-- `VerifyGaslimit` accepts a gas limit of at least `MinGasLimit` that moved by less than the bound: the
`int64` difference of two `uint64`s that close is their exact difference. -/
theorem verifyGaslimit_eq_ok {Addr : Type} {p h : ℕ} (hp : p < u64) (hh : h < u64)
    (hdiff : max p h - min p h < p / gasLimitBoundDivisor) (hmin : minGasLimit ≤ h) :
    (verifyGaslimit p h : Except (HeaderError Addr) Unit) = .ok () := by
  have hsmall : max p h - min p h < 2 ^ 63 := by
    unfold gasLimitBoundDivisor at hdiff
    unfold u64 at hp
    omega
  have hwrap := wrapInt64_sub_toInt64 hp hh (by omega) (by omega)
  -- the absolute value the source takes, read back as a `uint64`
  have habs : toUint64 (if wrapInt64 (toInt64 p - toInt64 h) < 0 then
      wrapInt64 (wrapInt64 (toInt64 p - toInt64 h) * -1) else wrapInt64 (toInt64 p - toInt64 h)) =
      max p h - min p h := by
    rw [hwrap]
    split
    · rw [wrapInt64_eq rfl (by omega) (by omega), toUint64_of_nonneg (by omega) (by omega)]
      omega
    · rw [toUint64_of_nonneg (by omega) (by omega)]
      omega
  unfold verifyGaslimit
  simp only [habs, ge_iff_le, Nat.not_le.2 hdiff, ↓reduceIte, Nat.not_lt.2 hmin]
  rfl

theorem verifyGaslimit_calcGasLimit {Addr : Type} {p ceil : ℕ} (hp : minGasLimit ≤ p)
    (hno : p + p / gasLimitBoundDivisor ≤ u64) :
    (verifyGaslimit p (calcGasLimit p ceil) : Except (HeaderError Addr) Unit) = .ok () := by
  obtain ⟨⟨hup, hdown, hstay⟩, hdist⟩ := @calcGasLimit_movesToward _ ceil hp hno
  have hdiv : 4 ≤ p / gasLimitBoundDivisor := by
    unfold minGasLimit at hp
    unfold gasLimitBoundDivisor
    omega
  -- the new limit is between `p` and the target, both at least `MinGasLimit`
  have hmin : minGasLimit ≤ calcGasLimit p ceil := by
    have := le_max_right ceil minGasLimit
    rcases lt_trichotomy p (max ceil minGasLimit) with h | h | h
    · exact hp.trans (hup h).1.le
    · rw [hstay h.symm]
      exact hp
    · exact this.trans (hdown h).1
  apply verifyGaslimit_eq_ok _ _ hdist hmin
  · omega
  · omega

section

variable {Addr Hash : Type} [DecidableEq Hash]

/-- `CalcBaseFee` on a London parent never panics, keeps the fee at the target, lowers it by at most an
eighth below it, raises it by at least one above it (by at most `max 1 (b / 8)` up to twice the target) and
is monotone in the gas used; `CalcGasLimit` moves towards the target and passes `VerifyGaslimit` while
`p + p / GasLimitBoundDivisor` fits in `uint64`. -/
theorem eip1559_arithmetic_bounded :
    (∀ (config : ChainConfig) (P : BlockHeader Addr Hash) (b : ℕ),
      config.isLondon (P.number % u64) = true → minGasLimit ≤ P.gasLimit → P.baseFee = some b →
      ∃ r : ℕ → ℕ, Monotone r ∧ ∀ u, calcBaseFee config { P with gasUsed := u } = some (r u) ∧
        (u = P.gasLimit / 2 → r u = b) ∧
        (P.gasLimit / 2 < u → b + 1 ≤ r u ∧ r u ≤ b + max 1 (b * (u - P.gasLimit / 2) / (P.gasLimit / 2) / 8)) ∧
        (P.gasLimit / 2 < u → u ≤ 2 * (P.gasLimit / 2) → r u ≤ b + max 1 (b / 8)) ∧
        (u < P.gasLimit / 2 → b - b / 8 ≤ r u ∧ r u ≤ b)) ∧
    (∀ p ceil : ℕ, minGasLimit ≤ p → p + p / gasLimitBoundDivisor ≤ u64 →
      MovesToward p (max ceil minGasLimit) (calcGasLimit p ceil) ∧
        max p (calcGasLimit p ceil) - min p (calcGasLimit p ceil) < p / gasLimitBoundDivisor ∧
        (verifyGaslimit p (calcGasLimit p ceil) : Except (HeaderError Addr) Unit) = .ok ()) := by
  constructor
  · intro config P b hl hmin hb
    have ht : 0 < P.gasLimit / elasticityMultiplier := by
      unfold minGasLimit at hmin
      unfold elasticityMultiplier
      omega
    refine ⟨nextBaseFee b (P.gasLimit / 2), nextBaseFee_mono b _, fun u => ⟨?_, ?_, ?_, ?_, ?_⟩⟩
    · exact @calcBaseFee_of_london _ _ _ config { P with gasUsed := u } b hl hb ht
    · rintro rfl
      exact nextBaseFee_self b _
    · exact nextBaseFee_above
    · exact nextBaseFee_le_of_le_two_mul
    · exact nextBaseFee_below
  · intro p ceil hp hno
    obtain ⟨htoward, hdist⟩ := @calcGasLimit_movesToward _ ceil hp hno
    exact ⟨htoward, hdist, verifyGaslimit_calcGasLimit hp hno⟩

end

/-- A chain with London from its genesis. -/
def londonConfig : ChainConfig := ⟨none, none, none, some 0, none, none, false⟩

/-- A London parent of gas limit 30000000 and base fee 10^9. -/
def londonParent : BlockHeader ℕ ℕ := ⟨0, 0, 0, 1, 30000000, 0, 0, [], 0, 0, some 1000000000⟩

/-- A full block over `londonParent` raises the fee by at most an eighth, and the gas limit moves from
30000000 towards a ceiling of 40000000 and passes verification. -/
theorem eip1559_arithmetic_bounded_londonParent :
    (∃ r, calcBaseFee londonConfig { londonParent with gasUsed := 30000000 } = some r ∧
      1000000001 ≤ r ∧ r ≤ 1000000000 + max 1 (1000000000 / 8)) ∧
    MovesToward 30000000 (max 40000000 minGasLimit) (calcGasLimit 30000000 40000000) ∧
    (verifyGaslimit 30000000 (calcGasLimit 30000000 40000000) : Except (HeaderError ℕ) Unit) = .ok () := by
  obtain ⟨hfee, hlimit⟩ := @eip1559_arithmetic_bounded ℕ ℕ _
  obtain ⟨r, -, hr⟩ := hfee londonConfig londonParent 1000000000 (by decide) (by decide) rfl
  obtain ⟨hcalc, -, habove, hle, -⟩ := hr 30000000
  obtain ⟨htoward, -, hverify⟩ := hlimit 30000000 40000000 (by decide) (by decide)
  exact ⟨⟨r 30000000, hcalc, (habove (by decide)).1, hle (by decide) (by decide)⟩, htoward, hverify⟩

/-- A London parent of odd gas limit 5001, all of it used, at base fee 20000. -/
def oddLondonParent : BlockHeader ℕ ℕ := ⟨0, 0, 0, 1, 5001, 5001, 0, [], 0, 0, some 20000⟩

/-- The fee after an odd gas limit rises by more than an eighth; and the gas limit 9214373625111502857,
doubled at the London transition, wraps: `CalcGasLimit` towards the ceiling `2^64 - 1` gives 1, which
`VerifyGaslimit` rejects. -/
theorem calcBaseFee_calcGasLimit_overshoot :
    calcBaseFee londonConfig oddLondonParent = some 22501 ∧ 20000 + max 1 (20000 / 8) < 22501 ∧
      (9214373625111502857 * elasticityMultiplier) % u64 = 18428747250223005714 ∧
      calcGasLimit 18428747250223005714 (u64 - 1) = 1 ∧
      (verifyGaslimit 18428747250223005714 1 : Except (HeaderError ℕ) Unit) = .error .gasLimitBelowMin := by
  refine ⟨by decide, by decide, by decide, by decide, by decide⟩

end AmazeChain.APos
