import AmazeChain.Internal.StateTransition
import AmazeChain.Lib.ExceptFold
import Mathlib.Data.Nat.ModEq
import Mathlib.Algebra.BigOperators.Group.Finset.Piecewise
import Mathlib.Data.Fintype.Basic

/-!
# The fees of the state transition

What `TransitionDb` moves between accounts: `buyGas` takes the gas limit at the message's gas price from the
sender, `refundGas` gives the gas left back at that price, the block producer gets the gas used at the
effective tip and, under London with a fee collector, the collector gets the gas used at the base fee.  With
the gas price `AsMessage` sets under a base fee, `min(tip + baseFee, feeCap)`, the producer's and the
collector's shares add up to what the sender paid for the gas used, so a transition moves value and makes
none: modulo `2 ^ 256`, the `uint256` arithmetic of the balances, their total after the transition is the
total before (`transitionDb_conserves_value`), for every state and every interpreter that keeps the total
and returns no more gas than it was given.

Two things make value outside that.  Under `NoBaseFee`, which the interpreter's config says forces the base
fee to zero but which `NewEVM` never applies to the block context, a message with no fee cap and no tip skips
the fee cap check, and the collector is paid the base fee for gas the sender did not pay for
(`transitionDb_noBaseFee_mints`).  Under Parlia every transition is run with gas bailout, which lets a sender
short of the gas cost through unpaid while the shares are still paid (`transitionDb_mints_under_parlia`).  The
conservation also asks that the tip and the base fee add up below `2 ^ 256`: a successful transition with at
least two gas has it from the balance check of `buyGas`, and only an access list long enough to wrap the
`uint64` intrinsic gas lets one through with less.

A total of the balances is anything the balance methods move as a sum does (`BalanceTotal`); `mapOps` is a
state of balances only, whose total is the sum over a finite set of addresses.
-/

set_option linter.unusedSectionVars false

namespace AmazeChain.Internal

open Txspool ExceptFold

variable {σ Addr Hash ε : Type}

/-- A total of the balances of a state, moved as the balance methods move a sum in `uint256`: a credit adds
its amount and a debit takes it, modulo `2 ^ 256`; the other methods the transition calls leave it. -/
structure BalanceTotal (ops : StateOps σ Addr Hash) where
  total : σ → ℕ
  addBalance : ∀ s a v, total (ops.addBalance s a v) ≡ total s + v [MOD u256]
  subBalance : ∀ s a v, total (ops.subBalance s a v) + v ≡ total s [MOD u256]
  setNonce : ∀ s a n, total (ops.setNonce s a n) = total s
  prepareAccessList : ∀ s a dst l, total (ops.prepareAccessList s a dst l) = total s
  addAddressToAccessList : ∀ s a, total (ops.addAddressToAccessList s a) = total s

/-- A credit of an amount taken modulo `2 ^ 256` adds the amount to the total. -/
theorem BalanceTotal.addBalance_mod {ops : StateOps σ Addr Hash} (bt : BalanceTotal ops) (s : σ) (a : Addr) (x : ℕ) :
    bt.total (ops.addBalance s a (x % u256)) ≡ bt.total s + x [MOD u256] :=
  (bt.addBalance s a _).trans ((Nat.mod_modEq x u256).add_left _)

/-- The refund and the two shares that close a transition, each taken modulo `2 ^ 256`, add their amounts to
the total. -/
theorem BalanceTotal.payShares_mod {ops : StateOps σ Addr Hash} (bt : BalanceTotal ops) (s : σ)
    (sender coinbase collector : Addr) (refund tip base : ℕ) :
    bt.total (ops.addBalance (ops.addBalance (ops.addBalance s sender (refund % u256)) coinbase (tip % u256))
        collector (base % u256)) ≡ bt.total s + refund + tip + base [MOD u256] :=
  (bt.addBalance_mod _ _ _).trans
    (((bt.addBalance_mod _ _ _).trans ((bt.addBalance_mod _ _ _).add_right _)).add_right _)

variable [DecidableEq Hash] (ops : StateOps σ Addr Hash) (msg : Message Addr Hash) (evm : EVM σ Addr Hash ε)
  (consts : TransitionConsts Addr Hash)

/-! ### The parts of `TransitionDb` -/

/-- The state the interpreter starts from: under Berlin the access list prepared, and under Shanghai the
coinbase warm (EIP-3651). -/
def interpreterState (rules : Rules) (state : σ) : σ :=
  if rules.isBerlin then
    let state := ops.prepareAccessList state msg.sender msg.toAddr msg.accessList
    if rules.isShanghai then ops.addAddressToAccessList state evm.coinbase else state
  else state

/-- The interpreter's run: a creation, or a call once the sender's nonce is raised. -/
def runInterpreter (state : σ) (gas : ℕ) (bailout : Bool) : List UInt8 × σ × ℕ × Option ε :=
  match msg.toAddr with
  | none => evm.create state msg.sender msg.data gas msg.amount
  | some recipient =>
    let state := ops.setNonce state msg.sender ((ops.getNonce state msg.sender + 1) % u64)
    evm.call state msg.sender recipient msg.data gas msg.amount bailout

/-- What `TransitionDb` does after the interpreter: the refund, then the producer's and the collector's
shares. -/
def payFees (rules : Rules) (refunds : Bool) (ret : List UInt8) (vmerr : Option ε) (t : Transition σ) :
    Option (Except TransitionError (ExecutionResult ε × σ × ℕ)) :=
  let refunded := if refunds then refundGas ops msg (if rules.isLondon then 5 else 2) t else some t
  refunded.bind fun t =>
    (effectiveTip msg evm rules).bind fun tip =>
      let amount := t.gasUsed * tip % u256
      let producer := if rules.isParlia then consts.systemAddress else evm.coinbase
      let state := ops.addBalance t.state producer amount
      let burnt : Option σ :=
        if !msg.isFree && rules.isLondon && rules.isEip1559FeeCollector then
          match evm.feeCollector, evm.baseFee with
          | some collector, some baseFee => some (ops.addBalance state collector (t.gasUsed * baseFee % u256))
          | _, _ => none
        else some state
      burnt.map fun state => .ok (⟨t.gasUsed, vmerr, ret⟩, state, t.gp)

/-- `TransitionDb` as its parts. -/
theorem transitionDb_eq (refunds gasBailout : Bool) (state : σ) (gp : ℕ) :
    transitionDb ops msg evm consts refunds gasBailout state gp =
      match preCheck ops msg evm consts (gasBailout || evm.chainRules.isParlia) ⟨state, gp, 0, 0⟩ with
      | .error e => some (.error e)
      | .ok t =>
        match intrinsicGasCheck msg evm.chainRules t.gas with
        | .error e => some (.error e)
        | .ok gas =>
          let bailout := (gasBailout || evm.chainRules.isParlia) && msg.amount ≠ 0 &&
            !evm.canTransfer t.state msg.sender msg.amount
          let r := runInterpreter ops msg evm (interpreterState ops msg evm evm.chainRules t.state) gas bailout
          payFees ops msg evm consts evm.chainRules refunds r.1 r.2.2.2 { t with state := r.2.1, gas := r.2.2.1 } := by
  unfold transitionDb
  rfl

/-! ### What each part does when it succeeds -/

/-- The fee cap check passed: the tip is within the fee cap, and so is the base fee for a message that is
not free. -/
theorem checkEip1559TxGasFeeCap_eq_ok {gasFeeCap tip baseFee : ℕ} {isFree : Bool}
    (h : checkEip1559TxGasFeeCap gasFeeCap tip (some baseFee) isFree = .ok ()) :
    tip ≤ gasFeeCap ∧ (isFree = false → baseFee ≤ gasFeeCap) := by
  unfold checkEip1559TxGasFeeCap at h
  by_cases htip : gasFeeCap < tip
  · simp [htip] at h
  · by_cases hbase : gasFeeCap < baseFee
    · refine ⟨by omega, fun hfree => ?_⟩
      simp [htip, hbase, hfree] at h
    · exact ⟨by omega, fun _ => by omega⟩

/-- `buyGas` without bailout passed: the costs are below `2 ^ 256`, the gas pool holds the gas limit, and the
sender paid the gas limit at the gas price. -/
theorem buyGas_eq_ok {t t' : Transition σ} (h : buyGas ops msg false t = .ok t') :
    msg.gasLimit * msg.gasPrice < u256 ∧ msg.gasLimit * msg.feeCap < u256 ∧ msg.gasLimit ≤ t.gp ∧
      t' = ⟨ops.subBalance t.state msg.sender (msg.gasLimit * msg.gasPrice), t.gp - msg.gasLimit,
        (t.gas + msg.gasLimit) % u64, msg.gasLimit⟩ := by
  unfold buyGas at h
  by_cases h1 : u256 ≤ msg.gasLimit * msg.gasPrice
  · simp [h1] at h
  by_cases h2 : u256 ≤ msg.gasLimit * msg.feeCap
  · simp [h1, h2] at h
  by_cases h3 : u256 ≤ msg.gasLimit * msg.feeCap + msg.amount
  · simp [h1, h2, h3] at h
  by_cases h4 : ops.getBalance t.state msg.sender < msg.gasLimit * msg.feeCap + msg.amount
  · simp [h1, h2, h3, h4] at h
  by_cases h5 : t.gp < msg.gasLimit
  · simp [h1, h2, h3, h4, h5, subGas] at h
  simp [h1, h2, h3, h4, h5, subGas] at h
  exact ⟨by omega, by omega, by omega, h.symm⟩

/-- `preCheck` without bailout, for a message whose nonce is not checked, passed: the fee cap check under
London when it runs, and `buyGas`. -/
theorem preCheck_eq_ok (hnonce : msg.checkNonce = false) {t t' : Transition σ}
    (h : preCheck ops msg evm consts false t = .ok t') :
    (evm.chainRules.isLondon = true → (!evm.noBaseFee || decide (msg.feeCap ≠ 0) || decide (msg.tip ≠ 0)) = true →
      checkEip1559TxGasFeeCap msg.feeCap msg.tip evm.baseFee msg.isFree = .ok ()) ∧
    buyGas ops msg false t = .ok t' := by
  unfold preCheck at h
  simp only [hnonce, Bool.false_eq_true, ↓reduceIte] at h
  by_cases hlondon : evm.chainRules.isLondon = true
  · by_cases hcheck : (!evm.noBaseFee || decide (msg.feeCap ≠ 0) || decide (msg.tip ≠ 0)) = true
    · simp only [hlondon, hcheck, ↓reduceIte, bind_eq_ok] at h
      obtain ⟨u, hu, hbuy⟩ := h
      exact ⟨fun _ _ => hu, hbuy⟩
    · simp only [hlondon, hcheck, Bool.false_eq_true, ↓reduceIte] at h
      exact ⟨fun _ h' => absurd h' hcheck, h⟩
  · simp only [hlondon, Bool.false_eq_true, ↓reduceIte] at h
    exact ⟨fun h' => absurd h' hlondon, h⟩

/-- The intrinsic gas check passed: the gas left is the gas less the intrinsic gas. -/
theorem intrinsicGasCheck_eq_ok {rules : Rules} {gas gas' : ℕ} (h : intrinsicGasCheck msg rules gas = .ok gas') :
    gas' ≤ gas := by
  unfold intrinsicGasCheck at h
  split at h
  · cases h
  · split at h
    · cases h
    · simp at h
      omega

/-- The refund: the gas left grows by the refund, paid back to the sender at the gas price and returned
to the gas pool. -/
theorem refundGas_eq_some {q : ℕ} {t t' : Transition σ} (h : refundGas ops msg q t = some t') :
    t'.gas = (t.gas + min (t.gasUsed / q) (ops.getRefund t.state)) % u64 ∧
      t'.state = ops.addBalance t.state msg.sender (t'.gas * msg.gasPrice % u256) ∧
      t'.gp = t.gp + t'.gas ∧ t'.initialGas = t.initialGas := by
  unfold refundGas addGas at h
  dsimp only at h
  split at h
  · cases h
  · simp only [Option.map_some, Option.some.injEq] at h
    subst h
    exact ⟨rfl, rfl, rfl, rfl⟩

/-- The gas used, a wrapping difference in the source, is the plain one while the gas left is within the
initial gas. -/
theorem Transition.gasUsed_of_le {t : Transition σ} (h : t.gas ≤ t.initialGas) (hinit : t.initialGas < u64) :
    t.gasUsed = t.initialGas - t.gas := by
  unfold Transition.gasUsed
  rw [show t.initialGas + u64 - t.gas = t.initialGas - t.gas + u64 by omega, Nat.add_mod_right,
    Nat.mod_eq_of_lt (by omega)]

/-- The refund is at most the gas used, so the gas left after it stays within the initial gas. -/
theorem refundGas_gas_le {q : ℕ} {t t' : Transition σ} (h : refundGas ops msg q t = some t')
    (hle : t.gas ≤ t.initialGas) (hinit : t.initialGas < u64) : t.gas ≤ t'.gas ∧ t'.gas ≤ t.initialGas := by
  obtain ⟨hgas, -, -, -⟩ := refundGas_eq_some ops msg h
  rw [Transition.gasUsed_of_le hle hinit] at hgas
  have hdiv := Nat.div_le_self (t.initialGas - t.gas) q
  have hmin := min_le_left ((t.initialGas - t.gas) / q) (ops.getRefund t.state)
  have hlt : t.gas + min ((t.initialGas - t.gas) / q) (ops.getRefund t.state) < u64 := by omega
  rw [hgas, Nat.mod_eq_of_lt hlt]
  generalize min ((t.initialGas - t.gas) / q) (ops.getRefund t.state) = m at hmin ⊢
  omega

/-- Under London the tip is the one the fee cap leaves over the base fee. -/
theorem effectiveTip_of_london {rules : Rules} (hlondon : rules.isLondon = true) {baseFee : ℕ}
    (hbase : evm.baseFee = some baseFee) :
    effectiveTip msg evm rules = some (if msg.feeCap > baseFee then min msg.tip (msg.feeCap - baseFee) else 0) := by
  simp [effectiveTip, hlondon, hbase]

/-- The fees paid under London with a fee collector, outside Parlia, for a message that is not free: the
refund, then the producer's share at the effective tip and the collector's at the base fee. -/
theorem payFees_eq_ok {rules : Rules} (hlondon : rules.isLondon = true) (hcollector : rules.isEip1559FeeCollector = true)
    (hparlia : rules.isParlia = false) (hfree : msg.isFree = false) {baseFee : ℕ} (hbase : evm.baseFee = some baseFee)
    {ret : List UInt8} {vmerr : Option ε} {t : Transition σ} {res : ExecutionResult ε} {state' : σ} {gp' : ℕ}
    (h : payFees ops msg evm consts rules true ret vmerr t = some (.ok (res, state', gp'))) :
    ∃ t' collector, refundGas ops msg 5 t = some t' ∧ evm.feeCollector = some collector ∧
      res.usedGas = t'.gasUsed ∧ gp' = t'.gp ∧
      state' = ops.addBalance (ops.addBalance t'.state evm.coinbase
        (t'.gasUsed * (if msg.feeCap > baseFee then min msg.tip (msg.feeCap - baseFee) else 0) % u256)) collector
          (t'.gasUsed * baseFee % u256) := by
  unfold payFees at h
  simp only [hlondon, ↓reduceIte, effectiveTip_of_london msg evm hlondon hbase, Option.bind_some, hparlia,
    Bool.false_eq_true, hfree, hcollector, hbase, Bool.not_false, Bool.and_self] at h
  cases hrefund : refundGas ops msg 5 t with
  | none => simp [hrefund] at h
  | some t' =>
    cases hcol : evm.feeCollector with
    | none => simp [hrefund, hcol] at h
    | some collector =>
      simp only [hrefund, hcol, Option.bind_some, Option.map_some, Option.some.injEq, Except.ok.injEq,
        Prod.mk.injEq] at h
      obtain ⟨hres, hstate, hgp⟩ := h
      exact ⟨t', collector, rfl, rfl, by rw [← hres], hgp.symm, hstate.symm⟩

/-! ### Conservation -/

/-- The interpreter the conservation of value rests on: its calls and creations keep the total of the
balances and return no more gas than they were given. -/
structure KeepsTotal (bt : BalanceTotal ops) (evm : EVM σ Addr Hash ε) : Prop where
  call : ∀ s sender recipient data gas value bailout,
    bt.total (evm.call s sender recipient data gas value bailout).2.1 ≡ bt.total s [MOD u256] ∧
      (evm.call s sender recipient data gas value bailout).2.2.1 ≤ gas
  create : ∀ s sender data gas value,
    bt.total (evm.create s sender data gas value).2.1 ≡ bt.total s [MOD u256] ∧
      (evm.create s sender data gas value).2.2.1 ≤ gas

theorem interpreterState_total (bt : BalanceTotal ops) (rules : Rules) (state : σ) :
    bt.total (interpreterState ops msg evm rules state) = bt.total state := by
  unfold interpreterState
  split_ifs <;> simp [bt.prepareAccessList, bt.addAddressToAccessList]

theorem runInterpreter_total {bt : BalanceTotal ops} (hevm : KeepsTotal ops bt evm) (state : σ) (gas : ℕ)
    (bailout : Bool) :
    bt.total (runInterpreter ops msg evm state gas bailout).2.1 ≡ bt.total state [MOD u256] ∧
      (runInterpreter ops msg evm state gas bailout).2.2.1 ≤ gas := by
  unfold runInterpreter
  split
  · exact hevm.create ..
  · -- the nonce raised before the call moves no balance
    obtain ⟨htotal, hgas⟩ := hevm.call (ops.setNonce state msg.sender ((ops.getNonce state msg.sender + 1) % u64))
      msg.sender _ msg.data gas msg.amount bailout
    exact ⟨htotal.trans (by rw [bt.setNonce]), hgas⟩

/-- The gas price `AsMessage` sets under a base fee is the effective tip plus the base fee, when the base fee
is within the fee cap and the tip and the base fee add up without wrapping. -/
theorem asMessage_gasPrice {tx : Transaction Addr Hash} {baseFee : ℕ} (hbase : baseFee ≤ tx.gasFeeCap) (hwrap : tx.gasTipCap + baseFee < u256) :
    (tx.asMessage (some baseFee)).gasPrice =
      (if tx.gasFeeCap > baseFee then min tx.gasTipCap (tx.gasFeeCap - baseFee) else 0) + baseFee := by
  simp only [Transaction.asMessage, Nat.mod_eq_of_lt hwrap]
  split_ifs <;> omega

/-- A successful transition of a message whose nonce is not checked and that is not free, under London with
a fee collector and outside Parlia, as its steps: `buyGas`, the intrinsic gas, the interpreter, the refund
and the two shares. -/
theorem transitionDb_eq_ok (hfree : msg.isFree = false)
    (hlondon : evm.chainRules.isLondon = true) (hcollector : evm.chainRules.isEip1559FeeCollector = true)
    (hparlia : evm.chainRules.isParlia = false) {baseFee : ℕ} (hbase : evm.baseFee = some baseFee)
    {state : σ} {gp : ℕ} {res : ExecutionResult ε} {state' : σ} {gp' : ℕ}
    (h : transitionDb ops msg evm consts true false state gp = some (.ok (res, state', gp'))) :
    ∃ t gas t' collector, preCheck ops msg evm consts false ⟨state, gp, 0, 0⟩ = .ok t ∧
      intrinsicGasCheck msg evm.chainRules t.gas = .ok gas ∧
      refundGas ops msg 5 { t with
        state := (runInterpreter ops msg evm (interpreterState ops msg evm evm.chainRules t.state) gas false).2.1
        gas := (runInterpreter ops msg evm (interpreterState ops msg evm evm.chainRules t.state) gas false).2.2.1 } =
        some t' ∧
      evm.feeCollector = some collector ∧ res.usedGas = t'.gasUsed ∧ gp' = t'.gp ∧
      state' = ops.addBalance (ops.addBalance t'.state evm.coinbase
        (t'.gasUsed * (if msg.feeCap > baseFee then min msg.tip (msg.feeCap - baseFee) else 0) % u256)) collector
          (t'.gasUsed * baseFee % u256) := by
  rw [transitionDb_eq] at h
  simp only [hparlia, Bool.or_false, Bool.false_and] at h
  cases hpre : preCheck ops msg evm consts false ⟨state, gp, 0, 0⟩ with
  | error e => simp [hpre] at h
  | ok t =>
    cases hig : intrinsicGasCheck msg evm.chainRules t.gas with
    | error e => simp [hpre, hig] at h
    | ok gas =>
      simp only [hpre, hig] at h
      obtain ⟨t', collector, hrefund, hcol, hres, hgp, hstate⟩ :=
        payFees_eq_ok ops msg evm consts hlondon hcollector hparlia hfree hbase h
      exact ⟨t, gas, t', collector, rfl, hig, hrefund, hcol, hres, hgp, hstate⟩

/-! ### A state of balances and a transfer interpreter -/

section Balances

variable (Addr) [Fintype Addr] [DecidableEq Addr]

/-- A state of `uint256` balances and nothing else: a credit adds and a debit subtracts modulo `2 ^ 256`, as
the balance methods of the intra-block state do; nonces, code, refunds and access lists are not kept. -/
def mapOps (codeHash : Hash) : StateOps (Addr → ℕ) Addr Hash where
  getBalance s a := s a
  subBalance s a v := Function.update s a ((s a + (u256 - v % u256)) % u256)
  addBalance s a v := Function.update s a ((s a + v) % u256)
  getNonce _ _ := 0
  setNonce s _ _ := s
  getCodeHash _ _ := codeHash
  getRefund _ := 0
  prepareAccessList s _ _ _ := s
  addAddressToAccessList s _ := s

variable {Addr} in
/-- Setting one balance moves the sum by the new balance less the old one. -/
theorem sum_update_add (s : Addr → ℕ) (a : Addr) (b : ℕ) :
    ∑ x, Function.update s a b x + s a = ∑ x, s x + b := by
  rw [Finset.sum_update_of_mem (Finset.mem_univ a), ← Finset.add_sum_erase _ s (Finset.mem_univ a),
    Finset.sdiff_singleton_eq_erase]
  omega

/-- The total of a state of balances is their sum over every address. -/
def mapTotal (codeHash : Hash) : BalanceTotal (mapOps Addr codeHash) where
  total s := ∑ a, s a
  addBalance s a v := by
    show ∑ x, Function.update s a ((s a + v) % u256) x ≡ ∑ x, s x + v [MOD u256]
    refine Nat.ModEq.add_right_cancel' (s a) ?_
    rw [sum_update_add, show ∑ x, s x + v + s a = ∑ x, s x + (s a + v) by omega]
    exact (Nat.mod_modEq (s a + v) u256).add_left _
  subBalance s a v := by
    show ∑ x, Function.update s a ((s a + (u256 - v % u256)) % u256) x + v ≡ ∑ x, s x [MOD u256]
    refine Nat.ModEq.add_right_cancel' (s a) ?_
    rw [Nat.add_right_comm, sum_update_add]
    -- the debit is the complement of the amount in `2 ^ 256`, so with the amount it makes `2 ^ 256`
    have hlt : v % u256 < u256 := Nat.mod_lt v (Nat.two_pow_pos 256)
    calc ∑ x, s x + (s a + (u256 - v % u256)) % u256 + v
        ≡ ∑ x, s x + (s a + (u256 - v % u256)) + v % u256 [MOD u256] :=
          ((Nat.mod_modEq _ u256).add_left _).add (Nat.mod_modEq v u256).symm
      _ = ∑ x, s x + s a + u256 := by omega
      _ ≡ ∑ x, s x + s a [MOD u256] := Nat.add_mod_right _ _
  setNonce _ _ _ := rfl
  prepareAccessList _ _ _ _ := rfl
  addAddressToAccessList _ _ := rfl

end Balances

/-- An interpreter whose calls only move the value from the caller to the recipient and whose creations
do nothing, neither of them using gas; the block's fields are given. -/
def transferEvm (chainConfig : ChainConfig) (feeCollector : Option Addr) (coinbase : Addr) (baseFee : Option ℕ)
    (noBaseFee : Bool) : EVM σ Addr Hash ε where
  chainConfig := chainConfig
  feeCollector := feeCollector
  coinbase := coinbase
  baseFee := baseFee
  blockNumber := 0
  noBaseFee := noBaseFee
  canTransfer s a v := decide (v ≤ ops.getBalance s a)
  create s _ _ gas _ := ([], s, gas, none)
  call s sender recipient _ gas value _ :=
    ([], ops.addBalance (ops.subBalance s sender value) recipient value, gas, none)

/-- A transfer keeps every total of the balances. -/
theorem transferEvm_keepsTotal (bt : BalanceTotal ops) (chainConfig : ChainConfig) (feeCollector : Option Addr)
    (coinbase : Addr) (baseFee : Option ℕ) (noBaseFee : Bool) :
    KeepsTotal ops bt (transferEvm ops chainConfig feeCollector coinbase baseFee noBaseFee : EVM σ Addr Hash ε) where
  call s sender _ _ _ value _ := ⟨(bt.addBalance _ _ _).trans (bt.subBalance s sender value), Nat.le_refl _⟩
  create _ _ _ _ _ := ⟨Nat.ModEq.refl _, Nat.le_refl _⟩

/-- A chain where every fork the transition reads is active from the genesis block but Shanghai, with the
fee collector, outside Parlia. -/
def exampleConfig : ChainConfig where
  homesteadBlock := some 0
  istanbulBlock := some 0
  berlinBlock := some 0
  londonBlock := some 0
  shanghaiBlock := none
  eip1559FeeCollectorTransition := some 0
  parlia := false

/-- Four accounts, a million each: the sender is `0`, the producer `1`, the fee collector `2` and the
recipient `3`. -/
def exampleBalances : Fin 4 → ℕ := fun _ => 1000000

/-- The transfer interpreter on the example chain at a base fee of `7`. -/
def exampleEvm (noBaseFee : Bool) : EVM (Fin 4 → ℕ) (Fin 4) Unit Unit :=
  transferEvm (mapOps (Fin 4) ()) exampleConfig (some 2) 1 (some 7) noBaseFee

def exampleConsts : TransitionConsts (Fin 4) Unit := ⟨(), (), 0⟩

/-- A dynamic fee transaction from `0` sending `5` to `3` with the gas of a plain transfer. -/
def transferTx (tip feeCap : ℕ) : Transaction (Fin 4) Unit :=
  ⟨.dynamicFeeTx 1 0 tip feeCap 21000 (some 3) 5 [] [] 0 0 0, 0⟩

variable {ops evm consts}

/-- Value is conserved by a transition of a transaction's message, as `AsMessage` makes it under the
block's base fee, applied with refunds and without gas bailout under London with a fee collector, the
base fee checked (no `NoBaseFee`) and outside Parlia: modulo `2 ^ 256` the total of the balances after the
transition is the total before, the gas pool gives up the gas used, which is at most the transaction's gas,
and the final state is the interpreter's with the sender's refund of the gas left, the producer's share of
the gas used at `min(tip, feeCap - baseFee)` and the collector's at the base fee. -/
theorem transitionDb_conserves_value (bt : BalanceTotal ops) (hevm : KeepsTotal ops bt evm)
    {tx : Transaction Addr Hash} {baseFee : ℕ} (hbase : evm.baseFee = some baseFee)
    (hlondon : evm.chainRules.isLondon = true) (hcollector : evm.chainRules.isEip1559FeeCollector = true)
    (hnoBaseFee : evm.noBaseFee = false) (hparlia : evm.chainRules.isParlia = false) (hgas : tx.gas < u64)
    (hwrap : tx.gasTipCap + baseFee < u256) {state : σ} {gp : ℕ} {res : ExecutionResult ε} {state' : σ}
    {gp' : ℕ}
    (h : transitionDb ops (tx.asMessage (some baseFee)) evm consts true false state gp = some (.ok (res, state', gp'))) :
    let msg := tx.asMessage (some baseFee)
    bt.total state' ≡ bt.total state [MOD u256] ∧ gp' = gp - res.usedGas ∧ res.usedGas ≤ tx.gas ∧
      ∃ gas collector, evm.feeCollector = some collector ∧
        let sCall := (runInterpreter ops msg evm (interpreterState ops msg evm evm.chainRules
          (ops.subBalance state tx.sender (tx.gas * msg.gasPrice))) gas false).2.1
        state' = ops.addBalance (ops.addBalance (ops.addBalance sCall tx.sender
          ((tx.gas - res.usedGas) * msg.gasPrice % u256)) evm.coinbase
            (res.usedGas * min tx.gasTipCap (tx.gasFeeCap - baseFee) % u256)) collector (res.usedGas * baseFee % u256) := by
  intro msg
  obtain ⟨t, gas, t', collector, hpre, hig, hrefund, hcol, hres, hgp, hstate⟩ :=
    transitionDb_eq_ok ops msg evm consts rfl hlondon hcollector hparlia hbase h
  -- the fee cap check ran, and `buyGas` took the gas limit at the gas price
  obtain ⟨hcheck, hbuy⟩ := preCheck_eq_ok ops msg evm consts rfl hpre
  obtain ⟨-, hbaseCap⟩ := checkEip1559TxGasFeeCap_eq_ok
    (by rw [← hbase]; exact hcheck hlondon (by simp [hnoBaseFee]))
  have hbaseCap := hbaseCap rfl
  obtain ⟨-, -, hgpL, rfl⟩ := buyGas_eq_ok ops msg hbuy
  dsimp only at hig hrefund hgpL
  have hgasL : msg.gasLimit = tx.gas := rfl
  have hgasLe : gas ≤ tx.gas := by
    have := intrinsicGasCheck_eq_ok msg hig
    rw [Nat.zero_add, hgasL, Nat.mod_eq_of_lt hgas] at this
    exact this
  -- the interpreter keeps the total and returns at most the gas it was given
  obtain ⟨hrTotal, hrGas⟩ := runInterpreter_total ops msg evm hevm
    (interpreterState ops msg evm evm.chainRules (ops.subBalance state msg.sender (msg.gasLimit * msg.gasPrice))) gas
    false
  generalize hr : runInterpreter ops msg evm
    (interpreterState ops msg evm evm.chainRules (ops.subBalance state msg.sender (msg.gasLimit * msg.gasPrice))) gas
    false = r at hrefund hrTotal hrGas ⊢
  -- the refund: the gas left stays within the gas limit, and the gas used is the rest
  obtain ⟨-, hstate', hgp', hinit'⟩ := refundGas_eq_some ops msg hrefund
  dsimp only at hstate' hgp' hinit'
  have hlimit : msg.gasLimit < u64 := hgas
  have hleft : t'.gas ≤ tx.gas :=
    (refundGas_gas_le ops msg hrefund (show r.2.2.1 ≤ msg.gasLimit by omega) hlimit).2
  have hused : res.usedGas = tx.gas - t'.gas := by
    rw [hres, Transition.gasUsed_of_le (by rw [hinit']; exact hleft) (by rw [hinit']; exact hlimit), hinit',
      hgasL]
  have htip : (if msg.feeCap > baseFee then min msg.tip (msg.feeCap - baseFee) else 0) =
      min tx.gasTipCap (tx.gasFeeCap - baseFee) := by
    show (if tx.gasFeeCap > baseFee then min tx.gasTipCap (tx.gasFeeCap - baseFee) else 0) = _
    split_ifs <;> omega
  rw [htip, ← hres] at hstate
  refine ⟨?_, ?_, by omega, gas, collector, hcol, ?_⟩
  · -- the producer's and the collector's shares are what the sender paid for the gas used
    have hprice : msg.gasPrice = min tx.gasTipCap (tx.gasFeeCap - baseFee) + baseFee := by
      rw [asMessage_gasPrice hbaseCap hwrap]
      split_ifs <;> omega
    have hshares : t'.gas * msg.gasPrice + res.usedGas * min tx.gasTipCap (tx.gasFeeCap - baseFee) +
        res.usedGas * baseFee = tx.gas * msg.gasPrice := by
      rw [Nat.add_assoc, ← Nat.mul_add, ← hprice, ← Nat.add_mul, hused, Nat.add_sub_cancel' hleft]
    rw [hstate, hstate']
    calc bt.total _
        ≡ bt.total r.2.1 + t'.gas * msg.gasPrice + res.usedGas * min tx.gasTipCap (tx.gasFeeCap - baseFee) +
            res.usedGas * baseFee [MOD u256] :=
          bt.payShares_mod _ _ _ _ _ _ _
      _ ≡ bt.total (ops.subBalance state tx.sender (tx.gas * msg.gasPrice)) + (t'.gas * msg.gasPrice +
            res.usedGas * min tx.gasTipCap (tx.gasFeeCap - baseFee) + res.usedGas * baseFee) [MOD u256] := by
          -- the interpreter and the state it starts from keep the total of the debited state
          rw [interpreterState_total ops msg evm bt] at hrTotal
          simp only [Nat.add_assoc]
          exact hrTotal.add_right _
      _ = bt.total (ops.subBalance state tx.sender (tx.gas * msg.gasPrice)) + tx.gas * msg.gasPrice := by
          rw [hshares]
      _ ≡ bt.total state [MOD u256] := bt.subBalance _ _ _
  · rw [hgp, hgp', hused]
    omega
  · -- the refund is of the gas left, which the gas used leaves of the transaction's gas
    intro sCall
    have hsCall : sCall = r.2.1 := by
      rw [← hr]
      rfl
    have hback : tx.gas - res.usedGas = t'.gas := by omega
    rw [hsCall, hstate, hstate', hback]
    rfl

/-- A transfer of `5` at a tip of `2` and a fee cap of `10` over a base fee of `7` keeps the sum of the
balances, and the gas pool gives up the gas used. -/
theorem transitionDb_conserves_value_transfer :
    ∃ r : ExecutionResult Unit × (Fin 4 → ℕ) × ℕ, transitionDb (mapOps (Fin 4) ())
        ((transferTx 2 10).asMessage (some 7)) (exampleEvm false) exampleConsts true false exampleBalances 30000000 =
          some (.ok r) ∧
      (mapTotal (Fin 4) ()).total r.2.1 ≡ (mapTotal (Fin 4) ()).total exampleBalances [MOD u256] ∧
        r.2.2 = 30000000 - r.1.usedGas ∧ r.1.usedGas ≤ 21000 := by
  refine exists_ok_of_any_isOk (by decide) fun ⟨res, state', gp'⟩ h => ?_
  obtain ⟨htotal, hgp, hused, -⟩ := transitionDb_conserves_value (mapTotal (Fin 4) ())
    (transferEvm_keepsTotal _ _ _ _ _ _ _) rfl rfl rfl rfl rfl (by decide) (by decide) h
  exact ⟨htotal, hgp, hused⟩

/-- Under `NoBaseFee` a message with no fee cap and no tip skips the fee cap check, and its gas price, the fee
cap, is zero: the sender pays nothing for its gas, the producer's share is zero, and the collector is still
paid the gas used at the base fee.  So every such transition that succeeds adds the gas used at the base fee
to the total of the balances, for every interpreter that keeps the total. -/
theorem transitionDb_noBaseFee_mints (bt : BalanceTotal ops) (hevm : KeepsTotal ops bt evm)
    {tx : Transaction Addr Hash} {baseFee : ℕ} (hbase : evm.baseFee = some baseFee)
    (hlondon : evm.chainRules.isLondon = true) (hcollector : evm.chainRules.isEip1559FeeCollector = true)
    (hparlia : evm.chainRules.isParlia = false) (hcap : tx.gasFeeCap = 0) {state : σ} {gp : ℕ}
    {res : ExecutionResult ε} {state' : σ} {gp' : ℕ}
    (h : transitionDb ops (tx.asMessage (some baseFee)) evm consts true false state gp = some (.ok (res, state', gp'))) :
    bt.total state' ≡ bt.total state + res.usedGas * baseFee [MOD u256] := by
  obtain ⟨t, gas, t', collector, hpre, -, hrefund, -, hres, -, hstate⟩ :=
    transitionDb_eq_ok ops _ evm consts rfl hlondon hcollector hparlia hbase h
  -- the gas price is the fee cap, zero, so `buyGas` took nothing and the refund gives nothing back
  have hprice : (tx.asMessage (some baseFee)).gasPrice = 0 := by simp [Transaction.asMessage, hcap]
  have htip : (if (tx.asMessage (some baseFee)).feeCap > baseFee then
      min (tx.asMessage (some baseFee)).tip ((tx.asMessage (some baseFee)).feeCap - baseFee) else 0) = 0 := by
    simp [Transaction.asMessage, hcap]
  obtain ⟨-, hbuy⟩ := preCheck_eq_ok ops _ evm consts rfl hpre
  obtain ⟨-, -, -, rfl⟩ := buyGas_eq_ok ops _ hbuy
  obtain ⟨-, hstate', -, -⟩ := refundGas_eq_some ops _ hrefund
  obtain ⟨hrTotal, -⟩ := runInterpreter_total ops _ evm hevm
    (interpreterState ops _ evm evm.chainRules
      (ops.subBalance state tx.sender (tx.gas * (tx.asMessage (some baseFee)).gasPrice))) gas false
  rw [interpreterState_total ops _ evm bt] at hrTotal
  rw [htip, ← hres] at hstate
  rw [hstate, hstate']
  simp only [hprice, Nat.mul_zero] at hrTotal ⊢
  -- the refund and the producer's share are zero, the collector's is the gas used at the base fee
  calc bt.total _
      ≡ bt.total _ + 0 + 0 + res.usedGas * baseFee [MOD u256] := bt.payShares_mod _ _ _ _ _ _ _
    _ ≡ bt.total (ops.subBalance state tx.sender 0) + res.usedGas * baseFee [MOD u256] := hrTotal.add_right _
    _ ≡ bt.total state + res.usedGas * baseFee [MOD u256] := (bt.subBalance state tx.sender 0).add_right _

/-- The transfer of `5` with no fee cap and no tip under `NoBaseFee` at a base fee of `7` succeeds with the
gas of a plain transfer, and the sum of the balances grows by that gas at the base fee, which is not zero
modulo `2 ^ 256`. -/
theorem transitionDb_noBaseFee_mints_transfer :
    KeepsTotal (mapOps (Fin 4) ()) (mapTotal (Fin 4) ()) (exampleEvm true) ∧
      ∃ r : ExecutionResult Unit × (Fin 4 → ℕ) × ℕ, transitionDb (mapOps (Fin 4) ())
          ((transferTx 0 0).asMessage (some 7)) (exampleEvm true) exampleConsts true false exampleBalances 30000000 =
            some (.ok r) ∧ r.1.usedGas = 21000 ∧
        (mapTotal (Fin 4) ()).total r.2.1 ≡ (mapTotal (Fin 4) ()).total exampleBalances + r.1.usedGas * 7 [MOD u256] ∧
        ¬ (mapTotal (Fin 4) ()).total r.2.1 ≡ (mapTotal (Fin 4) ()).total exampleBalances [MOD u256] := by
  have hkeeps : KeepsTotal (mapOps (Fin 4) ()) (mapTotal (Fin 4) ()) (exampleEvm true) :=
    transferEvm_keepsTotal _ _ _ _ _ _ _
  obtain ⟨r, hr, hused⟩ := exists_ok_of_any_decide (P := fun r : ExecutionResult Unit × (Fin 4 → ℕ) × ℕ =>
    r.1.usedGas = 21000) (o := transitionDb (mapOps (Fin 4) ()) ((transferTx 0 0).asMessage (some 7)) (exampleEvm true)
      exampleConsts true false exampleBalances 30000000) (by decide)
  have hmint := transitionDb_noBaseFee_mints (mapTotal (Fin 4) ()) hkeeps rfl rfl rfl rfl rfl hr
  refine ⟨hkeeps, r, hr, hused, hmint, fun hsame => ?_⟩
  -- the total before is four million, and the gas used at the base fee is `147000`
  have hgrow := hmint.symm.trans hsame
  rw [hused] at hgrow
  exact absurd hgrow (by decide)

/-- The example chain under Parlia. -/
def parliaEvm : EVM (Fin 4 → ℕ) (Fin 4) Unit Unit :=
  transferEvm (mapOps (Fin 4) ()) { exampleConfig with parlia := true } (some 2) 1 (some 7) false

/-- Under Parlia the conservation fails: a sender with no balance sends nothing at a tip of `2` and a fee cap
of `10`, the gas bailout Parlia forces lets `buyGas` through without taking the gas cost, and the system
address and the collector are still paid their shares, so the sum of the balances grows. -/
theorem transitionDb_mints_under_parlia :
    KeepsTotal (mapOps (Fin 4) ()) (mapTotal (Fin 4) ()) parliaEvm ∧
      ∃ r : ExecutionResult Unit × (Fin 4 → ℕ) × ℕ, transitionDb (mapOps (Fin 4) ())
          ((⟨.dynamicFeeTx 1 0 2 10 21000 (some 3) 0 [] [] 0 0 0, 0⟩ : Transaction (Fin 4) Unit).asMessage (some 7))
          parliaEvm exampleConsts true false (Function.update exampleBalances 0 0) 30000000 = some (.ok r) ∧
        ¬ (mapTotal (Fin 4) ()).total r.2.1 ≡ (mapTotal (Fin 4) ()).total (Function.update exampleBalances 0 0)
          [MOD u256] :=
  ⟨transferEvm_keepsTotal _ _ _ _ _ _ _, exists_ok_of_any_decide (by decide)⟩

end AmazeChain.Internal
