import AmazeChain.APos.Reward

/-!
# The effective tip on the price cells

The price getters of a transaction (`common/transaction`) return the `*uint256.Int` fields of its inner
data.  A legacy or an access list transaction has one `GasPrice` field, which `gasPrice()`, `gasTipCap()`
and `gasFeeCap()` all return; a dynamic fee transaction has a `GasTipCap` and a `GasFeeCap` field, and
`gasPrice()` returns the fee cap.  `EffectiveGasTip(baseFee)` computes `gasFeeCap.Sub(gasFeeCap, baseFee)`,
which writes the difference into the transaction's own fee cap, and `uint256Min` returns the pointer that
compares above the other.  So under a base fee the call returns `max(tip, feeCap - baseFee)` and leaves the
fee cap lowered by the base fee (`effectiveGasTip_spec`): for a legacy transaction the gas price, the tip
cap and the cost move with it.  The price heap of the pool compares two transactions through
`EffectiveGasTipCmp`, so each comparison lowers both fee caps once more (`priceHeapCmp_heap`;
`Txspool.Priced` follows the comparisons of a heap).

The cells are a heap `ℕ → ℕ` of `uint256` values; the other fields of a transaction are left out.
-/

namespace AmazeChain.Txspool

open APos (sub256 sub256_of_le)

/-- The price cells of a transaction's inner data. -/
inductive PriceCells where
  | gasPrice (cell : ℕ)
  | dynamicFee (gasTipCap gasFeeCap : ℕ)
  deriving DecidableEq, Repr

/-- A transaction as its price cells, the cell of its `Value` and its gas. -/
structure TxCells where
  prices : PriceCells
  value : ℕ
  gas : ℕ
  deriving DecidableEq, Repr

/-- The error `EffectiveGasTip` returns with a fee cap below the base fee. -/
inductive TipError where
  | errGasFeeCapTooLow
  deriving DecidableEq, Repr

/-- `uint256.Int.Cmp`. -/
def cmp (a b : ℕ) : ℤ := if a < b then -1 else if b < a then 1 else 0

/-- `uint256Min`: `x` when it compares above `y`, else `y`. -/
def uint256Min (heap : ℕ → ℕ) (x y : ℕ) : ℕ := if cmp (heap x) (heap y) = 1 then x else y

namespace TxCells

def gasPrice (tx : TxCells) : ℕ :=
  match tx.prices with
  | .gasPrice cell => cell
  | .dynamicFee _ gasFeeCap => gasFeeCap

def gasTipCap (tx : TxCells) : ℕ :=
  match tx.prices with
  | .gasPrice cell => cell
  | .dynamicFee gasTipCap _ => gasTipCap

def gasFeeCap (tx : TxCells) : ℕ :=
  match tx.prices with
  | .gasPrice cell => cell
  | .dynamicFee _ gasFeeCap => gasFeeCap

/-- `Cost()`: `gasPrice * gas + value` in `uint256`, read from the cells. -/
def cost (tx : TxCells) (heap : ℕ → ℕ) : ℕ := (heap tx.gasPrice * tx.gas % u256 + heap tx.value) % u256

/-- `EffectiveGasTip(baseFee)`: the returned cell, the heap after the call and the error. -/
def effectiveGasTip (tx : TxCells) (baseFee : Option ℕ) (heap : ℕ → ℕ) : ℕ × (ℕ → ℕ) × Option TipError :=
  match baseFee with
  | none => (tx.gasTipCap, heap, none)
  | some baseFee =>
    let gasFeeCap := tx.gasFeeCap
    let err := if cmp (heap gasFeeCap) (heap baseFee) = -1 then some .errGasFeeCapTooLow else none
    -- `gasFeeCap.Sub(gasFeeCap, baseFee)` runs before `uint256Min` reads its arguments
    let heap := Function.update heap gasFeeCap (sub256 (heap gasFeeCap) (heap baseFee))
    (uint256Min heap tx.gasTipCap gasFeeCap, heap, err)

/-- `EffectiveGasTipValue`: the cell of `EffectiveGasTip`, its error dropped. -/
def effectiveGasTipValue (tx : TxCells) (baseFee : Option ℕ) (heap : ℕ → ℕ) : ℕ × (ℕ → ℕ) :=
  ((tx.effectiveGasTip baseFee heap).1, (tx.effectiveGasTip baseFee heap).2.1)

/-- `GasTipCapCmp`. -/
def gasTipCapCmp (tx other : TxCells) (heap : ℕ → ℕ) : ℤ := cmp (heap tx.gasTipCap) (heap other.gasTipCap)

/-- `GasTipCapIntCmp`. -/
def gasTipCapIntCmp (tx : TxCells) (other : ℕ) (heap : ℕ → ℕ) : ℤ := cmp (heap tx.gasTipCap) (heap other)

/-- `EffectiveGasTipCmp`: both effective tips are computed, this transaction's first, before they are
compared. -/
def effectiveGasTipCmp (tx other : TxCells) (baseFee : Option ℕ) (heap : ℕ → ℕ) : ℤ × (ℕ → ℕ) :=
  match baseFee with
  | none => (tx.gasTipCapCmp other heap, heap)
  | some _ =>
    let (a, heap) := tx.effectiveGasTipValue baseFee heap
    let (b, heap) := other.effectiveGasTipValue baseFee heap
    (cmp (heap a) (heap b), heap)

/-- `EffectiveGasTipIntCmp`. -/
def effectiveGasTipIntCmp (tx : TxCells) (other : ℕ) (baseFee : Option ℕ) (heap : ℕ → ℕ) : ℤ × (ℕ → ℕ) :=
  match baseFee with
  | none => (tx.gasTipCapIntCmp other heap, heap)
  | some _ =>
    let (a, heap) := tx.effectiveGasTipValue baseFee heap
    (cmp (heap a) (heap other), heap)

end TxCells

/-- `priceHeap.cmp`: the effective tips under the heap's base fee, then the gas prices (twice, as the
source compares them). -/
def priceHeapCmp (baseFee : Option ℕ) (a b : TxCells) (heap : ℕ → ℕ) : ℤ × (ℕ → ℕ) :=
  let (c, heap) := match baseFee with
    | some _ => a.effectiveGasTipCmp b baseFee heap
    | none => (0, heap)
  if c ≠ 0 then (c, heap)
  else if cmp (heap a.gasPrice) (heap b.gasPrice) ≠ 0 then (cmp (heap a.gasPrice) (heap b.gasPrice), heap)
  else (cmp (heap a.gasPrice) (heap b.gasPrice), heap)

namespace TxCells

variable {tx : TxCells} {heap : ℕ → ℕ}

theorem cmp_eq_one_iff {a b : ℕ} : cmp a b = 1 ↔ b < a := by
  unfold cmp
  split_ifs <;> simp <;> omega

theorem cmp_eq_neg_one_iff {a b : ℕ} : cmp a b = -1 ↔ a < b := by
  unfold cmp
  split_ifs <;> simp <;> omega

/-- The heap after `EffectiveGasTip` under a base fee: the fee cap lowered by the base fee. -/
theorem effectiveGasTip_heap (baseFee : ℕ) :
    (tx.effectiveGasTip (some baseFee) heap).2.1 =
      Function.update heap tx.gasFeeCap (sub256 (heap tx.gasFeeCap) (heap baseFee)) := rfl

/-- What `EffectiveGasTip` does under a base fee within the fee cap, on cells that hold `uint256` values:
no error, the fee cap lowered by the base fee and every other cell kept, and the returned cell the one of
the larger of the tip and that difference. -/
theorem effectiveGasTip_spec {baseFee : ℕ} (hle : heap baseFee ≤ heap tx.gasFeeCap)
    (hcap : heap tx.gasFeeCap < u256) :
    let r := tx.effectiveGasTip (some baseFee) heap
    r.2.2 = none ∧ r.2.1 tx.gasFeeCap = heap tx.gasFeeCap - heap baseFee ∧
      (∀ c, c ≠ tx.gasFeeCap → r.2.1 c = heap c) ∧ r.2.1 r.1 = max (r.2.1 tx.gasTipCap) (r.2.1 tx.gasFeeCap) := by
  intro r
  have hsub : sub256 (heap tx.gasFeeCap) (heap baseFee) = heap tx.gasFeeCap - heap baseFee :=
    sub256_of_le hle hcap
  have hheap : r.2.1 = Function.update heap tx.gasFeeCap (heap tx.gasFeeCap - heap baseFee) := by
    rw [← hsub]
    rfl
  have herr : r.2.2 = none := by
    show (if cmp (heap tx.gasFeeCap) (heap baseFee) = -1 then some TipError.errGasFeeCapTooLow else none) = none
    rw [if_neg (fun h => absurd (cmp_eq_neg_one_iff.1 h) (Nat.not_lt.2 hle))]
  refine ⟨herr, by rw [hheap, Function.update_self], fun c hc => by rw [hheap, Function.update_of_ne hc], ?_⟩
  -- `uint256Min` returns the tip's cell exactly when the tip compares above the lowered fee cap
  show r.2.1 (uint256Min r.2.1 tx.gasTipCap tx.gasFeeCap) = _
  unfold uint256Min
  split
  · rename_i h
    rw [cmp_eq_one_iff] at h
    exact (max_eq_left h.le).symm
  · rename_i h
    rw [cmp_eq_one_iff, Nat.not_lt] at h
    exact (max_eq_right h).symm

/-- A dynamic fee transaction whose cells are apart, under a base fee within its fee cap: `EffectiveGasTip`
returns the larger of the tip and `feeCap - baseFee`, not the smaller, and leaves `GasFeeCap()` and
`GasPrice()` at `feeCap - baseFee` and `Cost()` computed from it; only the tip cap is kept. -/
theorem effectiveGasTip_returns_max {gasTipCap gasFeeCap value gas baseFee : ℕ} {heap : ℕ → ℕ}
    (htip : gasTipCap ≠ gasFeeCap) (hvalue : value ≠ gasFeeCap) (hle : heap baseFee ≤ heap gasFeeCap)
    (hcap : heap gasFeeCap < u256) :
    let tx : TxCells := ⟨.dynamicFee gasTipCap gasFeeCap, value, gas⟩
    let r := tx.effectiveGasTip (some baseFee) heap
    r.2.2 = none ∧ r.2.1 r.1 = max (heap gasTipCap) (heap gasFeeCap - heap baseFee) ∧
      r.2.1 tx.gasFeeCap = heap gasFeeCap - heap baseFee ∧ r.2.1 tx.gasPrice = heap gasFeeCap - heap baseFee ∧
      r.2.1 tx.gasTipCap = heap gasTipCap ∧
      tx.cost r.2.1 = ((heap gasFeeCap - heap baseFee) * gas % u256 + heap value) % u256 := by
  intro tx r
  obtain ⟨herr, hfee, hkeep, hmax⟩ := @effectiveGasTip_spec tx heap _ hle hcap
  have htip' : r.2.1 tx.gasTipCap = heap gasTipCap := hkeep gasTipCap htip
  have hvalue' : r.2.1 tx.value = heap value := hkeep value hvalue
  refine ⟨herr, ?_, hfee, hfee, htip', ?_⟩
  · rw [hmax, htip', hfee]
    rfl
  · show (r.2.1 tx.gasPrice * gas % u256 + r.2.1 tx.value) % u256 = _
    rw [show tx.gasPrice = tx.gasFeeCap from rfl, hfee, hvalue']
    rfl

/-- A tip of `2` over a fee cap of `10` at a base fee of `7`: the effective tip returned is `3`, and the
fee cap is left at `3`. -/
theorem effectiveGasTip_returns_max_tip2 :
    let heap : ℕ → ℕ := fun c => if c = 0 then 2 else if c = 1 then 10 else if c = 3 then 7 else 0
    let tx : TxCells := ⟨.dynamicFee 0 1, 2, 21000⟩
    let r := tx.effectiveGasTip (some 3) heap
    r.2.1 r.1 = 3 ∧ r.2.1 tx.gasFeeCap = 3 ∧ min (heap 0) (heap 1 - heap 3) = 2 := by
  intro heap tx r
  obtain ⟨-, hmax, hfee, -⟩ := @effectiveGasTip_returns_max 0 1 2 21000 3 heap
    (by decide) (by decide) (by decide) (by decide)
  exact ⟨hmax.trans (by decide), hfee.trans (by decide), by decide⟩

/-- On the one cell of a legacy or an access list transaction, `EffectiveGasTip` returns that cell,
lowered by the base fee: the value is right, and the gas price, the tip cap and the fee cap all move. -/
theorem effectiveGasTip_gasPrice_cell {cell value gas baseFee : ℕ} {heap : ℕ → ℕ}
    (hle : heap baseFee ≤ heap cell) (hcap : heap cell < u256) :
    let tx : TxCells := ⟨.gasPrice cell, value, gas⟩
    let r := tx.effectiveGasTip (some baseFee) heap
    r.1 = cell ∧ r.2.1 cell = heap cell - heap baseFee := by
  intro tx r
  obtain ⟨-, hfee, -, -⟩ := @effectiveGasTip_spec tx heap _ hle hcap
  refine ⟨?_, hfee⟩
  -- both arguments of `uint256Min` are the one cell
  show uint256Min r.2.1 cell cell = cell
  unfold uint256Min
  split <;> rfl

/-! ### Comparisons in the price heap -/

theorem gasPrice_eq_gasFeeCap (tx : TxCells) : tx.gasPrice = tx.gasFeeCap := by
  cases h : tx.prices <;> simp [gasPrice, gasFeeCap, h]

/-- `EffectiveGasTip` returns the tip cap's cell or the fee cap's. -/
theorem effectiveGasTip_fst (tx : TxCells) (baseFee : ℕ) (heap : ℕ → ℕ) :
    (tx.effectiveGasTip (some baseFee) heap).1 = tx.gasTipCap ∨
      (tx.effectiveGasTip (some baseFee) heap).1 = tx.gasFeeCap := by
  show uint256Min _ tx.gasTipCap tx.gasFeeCap = _ ∨ uint256Min _ tx.gasTipCap tx.gasFeeCap = _
  unfold uint256Min
  split
  · exact .inl rfl
  · exact .inr rfl

theorem effectiveGasTipCmp_fst (tx other : TxCells) (baseFee : ℕ) (heap : ℕ → ℕ) :
    (tx.effectiveGasTipCmp other (some baseFee) heap).1 =
      let r := tx.effectiveGasTip (some baseFee) heap
      let r' := other.effectiveGasTip (some baseFee) r.2.1
      cmp (r'.2.1 r.1) (r'.2.1 r'.1) := rfl

theorem effectiveGasTipCmp_heap (tx other : TxCells) (baseFee : ℕ) (heap : ℕ → ℕ) :
    (tx.effectiveGasTipCmp other (some baseFee) heap).2 =
      (other.effectiveGasTip (some baseFee) (tx.effectiveGasTip (some baseFee) heap).2.1).2.1 := rfl

end TxCells

open TxCells

/-- A comparison of the price heap under a base fee leaves the heap that the two effective tips leave. -/
theorem priceHeapCmp_heap (a b : TxCells) (baseFee : ℕ) (heap : ℕ → ℕ) :
    (priceHeapCmp (some baseFee) a b heap).2 = (a.effectiveGasTipCmp b (some baseFee) heap).2 := by
  unfold priceHeapCmp
  dsimp only
  split_ifs <;> rfl

/-- The first result of a comparison under a base fee: the comparison of the two effective tips, else of the
gas prices, both read from the heap the effective tips leave. -/
theorem priceHeapCmp_fst (a b : TxCells) (baseFee : ℕ) (heap : ℕ → ℕ) :
    (priceHeapCmp (some baseFee) a b heap).1 =
      let r := a.effectiveGasTipCmp b (some baseFee) heap
      if r.1 ≠ 0 then r.1 else cmp (r.2 a.gasPrice) (r.2 b.gasPrice) := by
  unfold priceHeapCmp
  dsimp only
  split_ifs <;> rfl

end AmazeChain.Txspool
