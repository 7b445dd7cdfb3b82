import AmazeChain.Txspool.Reorg
import AmazeChain.Txspool.Tip
import AmazeChain.Lib.BinaryHeap

/-!
# The priced list

`txPricedList` (`internal/txspool/txs_list.go`) is the priced list of the pool: its remote transactions in two
price heaps, `urgent`, ordered by the effective tip at the base fee of the next block, and `floating`, ordered
by the gas price, with a counter `stales` of the heap entries whose transaction has left the remotes of the
lookup.  Entries leave lazily.  `Removed` only bumps the counter; an entry is popped when it comes to the top
of its heap in `Underpriced` or `Discard`, and `Reheap` rebuilds both heaps from the lookup once the counter
passes a quarter of the entries.  `txPricedList keccak` is this list as the `PricedList` the pool calls.

A heap is a `BinaryHeap.Slice` under `priceHeap.Less` (`PriceHeap.less`).  `Less` leaves two transactions of
one price and nonce level, so the heaps are over a total preorder (`ByPrice`), and a `PriceHeap` carries the
heap order of its slice.  The pool's transactions are values here, so the heap under a base fee compares what
the first comparison of each two compares (`priceHeapCmp_holdsPrices`).  The write `EffectiveGasTip` makes into
a fee cap is not kept: in the source the comparison `n + 1` compares the two with their fee caps lowered `n`
times by the base fee (`priceHeapCmp_iterate_eq_cmp`), and two transactions can change places.
-/

set_option linter.unusedSectionVars false

namespace AmazeChain.Txspool

open BinaryHeap
open scoped List

variable {Addr Hash : Type}

/-! ### The order of a price heap -/

/-- `EffectiveGasTipValue(baseFee)` as its first call on a transaction returns it: the fee cap less the base
fee in `uint256`, or the tip cap when that is more, since `uint256Min` returns the larger of the two
(`TxCells.effectiveGasTip_returns_max`).  A legacy or access list transaction has one price cell for both. -/
def Transaction.effectiveGasTipValue (tx : Transaction Addr Hash) (baseFee : ℕ) : ℕ :=
  match tx.inner with
  | .dynamicFeeTx _ _ gasTipCap gasFeeCap .. => max gasTipCap (APos.sub256 gasFeeCap baseFee)
  | _ => APos.sub256 tx.gasPrice baseFee

namespace PriceHeap

/-- `priceHeap.cmp` under a base fee: the effective tips when there is a base fee, then the gas prices (twice,
as the source compares them). -/
def cmp (baseFee : Option ℕ) (a b : Transaction Addr Hash) : ℤ :=
  let c := match baseFee with
    | some baseFee => Txspool.cmp (a.effectiveGasTipValue baseFee) (b.effectiveGasTipValue baseFee)
    | none => 0
  if c ≠ 0 then c
  else if Txspool.cmp a.gasPrice b.gasPrice ≠ 0 then Txspool.cmp a.gasPrice b.gasPrice
  else Txspool.cmp a.gasPrice b.gasPrice

/-- `priceHeap.Less`: the cheaper transaction first, and of two at one price the one of the higher nonce. -/
def less (baseFee : Option ℕ) (a b : Transaction Addr Hash) : Bool :=
  match cmp baseFee a b with
  | -1 => true
  | 1 => false
  | _ => decide (b.nonce < a.nonce)

/-- The tip a heap under `baseFee` compares first; all tips are level without a base fee. -/
def tip (baseFee : Option ℕ) (tx : Transaction Addr Hash) : ℕ :=
  match baseFee with
  | some baseFee => tx.effectiveGasTipValue baseFee
  | none => 0

theorem cmp_eq (baseFee : Option ℕ) (a b : Transaction Addr Hash) :
    cmp baseFee a b = if tip baseFee a < tip baseFee b then -1 else if tip baseFee b < tip baseFee a then 1
      else Txspool.cmp a.gasPrice b.gasPrice := by
  cases baseFee <;> simp only [cmp, tip, Txspool.cmp] <;> split_ifs <;> first | rfl | omega

/-- `Less` is the order of the tips, then of the gas prices, then of the nonces reversed. -/
theorem less_iff {baseFee : Option ℕ} {a b : Transaction Addr Hash} :
    less baseFee a b = true ↔ tip baseFee a < tip baseFee b ∨
      tip baseFee a = tip baseFee b ∧ (a.gasPrice < b.gasPrice ∨ a.gasPrice = b.gasPrice ∧ b.nonce < a.nonce) := by
  unfold less
  rw [cmp_eq]
  simp only [Txspool.cmp]
  split_ifs <;> simp <;> omega

theorem less_self {baseFee : Option ℕ} (a : Transaction Addr Hash) : less baseFee a a = false := by
  rw [Bool.eq_false_iff, ne_eq, less_iff]
  omega

theorem less_asymm {baseFee : Option ℕ} {a b : Transaction Addr Hash} (h : less baseFee a b = true) : less baseFee b a = false := by
  rw [less_iff] at h
  rw [Bool.eq_false_iff, ne_eq, less_iff]
  omega

/-- Not being less is transitive: `Less` is the strict part of a total preorder. -/
theorem less_eq_false_trans {baseFee : Option ℕ} {a b c : Transaction Addr Hash} (hab : less baseFee b a = false)
    (hbc : less baseFee c b = false) : less baseFee c a = false := by
  rw [Bool.eq_false_iff, ne_eq, less_iff] at hab hbc ⊢
  omega

theorem cmp_nonneg_iff {baseFee : Option ℕ} {a b : Transaction Addr Hash} :
    0 ≤ cmp baseFee a b ↔ tip baseFee b < tip baseFee a ∨ tip baseFee a = tip baseFee b ∧ b.gasPrice ≤ a.gasPrice := by
  rw [cmp_eq]
  simp only [Txspool.cmp]
  split_ifs <;> omega

end PriceHeap

/-! ### The comparisons on the price cells

On price cells that hold the prices of two transactions, the first comparison of the heap returns
`PriceHeap.cmp` of the two (`priceHeapCmp_holdsPrices`).  It also writes each fee cap lowered by the base fee
back, so the cells then hold the transactions with their fee caps lowered, and the comparison `n + 1` returns
`PriceHeap.cmp` of the two with their fee caps lowered `n` times (`priceHeapCmp_iterate_eq_cmp`). -/

/-- The transaction with its fee cap lowered by `k`: the gas price of a legacy or an access list transaction,
the fee cap of a dynamic fee one. -/
def Transaction.lowerFeeCap (tx : Transaction Addr Hash) (k : ℕ) : Transaction Addr Hash :=
  match tx with
  | ⟨.legacyTx nonce gasPrice gas toAddr value data v r s, sender⟩ =>
    ⟨.legacyTx nonce (gasPrice - k) gas toAddr value data v r s, sender⟩
  | ⟨.accessListTx chainID nonce gasPrice gas toAddr value data accessList v r s, sender⟩ =>
    ⟨.accessListTx chainID nonce (gasPrice - k) gas toAddr value data accessList v r s, sender⟩
  | ⟨.dynamicFeeTx chainID nonce gasTipCap gasFeeCap gas toAddr value data accessList v r s, sender⟩ =>
    ⟨.dynamicFeeTx chainID nonce gasTipCap (gasFeeCap - k) gas toAddr value data accessList v r s, sender⟩

theorem Transaction.lowerFeeCap_lowerFeeCap (tx : Transaction Addr Hash) (k k' : ℕ) :
    (tx.lowerFeeCap k).lowerFeeCap k' = tx.lowerFeeCap (k + k') := by
  obtain ⟨inner, sender⟩ := tx
  cases inner <;> simp [Transaction.lowerFeeCap, Nat.sub_sub]

theorem Transaction.gasPrice_eq_gasFeeCap (tx : Transaction Addr Hash) : tx.gasPrice = tx.gasFeeCap := by
  obtain ⟨inner, sender⟩ := tx
  cases inner <;> rfl

namespace TxCells

/-- The cells of `cells` hold the prices of `tx` in `heap`: the one cell of a legacy or an access list
transaction, or the two cells, apart, of a dynamic fee one. -/
def HoldsPrices (heap : ℕ → ℕ) (cells : TxCells) (tx : Transaction Addr Hash) : Prop :=
  match cells.prices, tx.inner with
  | .gasPrice c, .legacyTx _ gasPrice .. => heap c = gasPrice
  | .gasPrice c, .accessListTx _ _ gasPrice .. => heap c = gasPrice
  | .dynamicFee t c, .dynamicFeeTx _ _ gasTipCap gasFeeCap .. => t ≠ c ∧ heap t = gasTipCap ∧ heap c = gasFeeCap
  | _, _ => False

variable {heap heap' : ℕ → ℕ} {cells : TxCells} {tx : Transaction Addr Hash}

theorem HoldsPrices.gasFeeCap (h : HoldsPrices heap cells tx) : heap cells.gasFeeCap = tx.gasFeeCap := by
  obtain ⟨prices, value, gas⟩ := cells
  obtain ⟨inner, sender⟩ := tx
  cases prices <;> cases inner <;> simp_all [HoldsPrices, TxCells.gasFeeCap, Transaction.gasFeeCap, TxData.gasFeeCap]

/-- The cells hold the prices in another heap that agrees on them, with the fee cap lowered by `k`. -/
theorem HoldsPrices.lower (h : HoldsPrices heap cells tx) {k : ℕ}
    (hcap : heap' cells.gasFeeCap = tx.gasFeeCap - k) (hrest : ∀ c, c ≠ cells.gasFeeCap → heap' c = heap c) :
    HoldsPrices heap' cells (tx.lowerFeeCap k) := by
  obtain ⟨prices, value, gas⟩ := cells
  obtain ⟨inner, sender⟩ := tx
  cases prices with
  | gasPrice c =>
    cases inner <;> simp_all [HoldsPrices, TxCells.gasFeeCap, Transaction.gasFeeCap, TxData.gasFeeCap,
      Transaction.lowerFeeCap]
  | dynamicFee t c =>
    cases inner <;> simp only [HoldsPrices] at h
    -- the tip's cell is apart from the fee cap's, which alone moves
    obtain ⟨htc, ht, -⟩ := h
    simp only [TxCells.gasFeeCap, Transaction.gasFeeCap, TxData.gasFeeCap] at hcap hrest
    exact ⟨htc, (hrest t htc).trans ht, hcap⟩

theorem HoldsPrices.congr (h : HoldsPrices heap cells tx) (htip : heap' cells.gasTipCap = heap cells.gasTipCap)
    (hcap : heap' cells.gasFeeCap = heap cells.gasFeeCap) : HoldsPrices heap' cells tx := by
  obtain ⟨prices, value, gas⟩ := cells
  obtain ⟨inner, sender⟩ := tx
  cases prices <;> cases inner <;> simp_all [HoldsPrices, TxCells.gasFeeCap, TxCells.gasTipCap]

/-- On cells that hold the prices of a transaction within `uint256`, `EffectiveGasTip` under a base fee within
its fee cap returns a cell that holds `EffectiveGasTipValue`, and leaves the cells holding the transaction with
its fee cap lowered by the base fee. -/
theorem HoldsPrices.effectiveGasTip (h : HoldsPrices heap cells tx) {baseFee : ℕ}
    (hle : heap baseFee ≤ tx.gasFeeCap) (hcap : tx.gasFeeCap < u256) :
    (cells.effectiveGasTip (some baseFee) heap).2.1 (cells.effectiveGasTip (some baseFee) heap).1 =
        tx.effectiveGasTipValue (heap baseFee) ∧
      HoldsPrices (cells.effectiveGasTip (some baseFee) heap).2.1 cells (tx.lowerFeeCap (heap baseFee)) := by
  have hfc := h.gasFeeCap
  obtain ⟨-, hfee, hkeep, hmax⟩ := effectiveGasTip_spec (hfc.symm ▸ hle) (hfc.symm ▸ hcap)
  rw [hfc] at hfee
  refine ⟨?_, h.lower hfee hkeep⟩
  have hsub := APos.sub256_of_le hle hcap
  obtain ⟨prices, value, gas⟩ := cells
  obtain ⟨inner, sender⟩ := tx
  cases prices with
  | gasPrice c =>
    -- the one cell is both arguments of `uint256Min`
    have hc : heap c = Transaction.gasFeeCap ⟨inner, sender⟩ := hfc
    obtain ⟨hr, hcell⟩ := @effectiveGasTip_gasPrice_cell c value gas baseFee heap (by rw [hc]; exact hle)
      (by rw [hc]; exact hcap)
    rw [hr, hcell, hc]
    cases inner <;> simp_all [HoldsPrices, Transaction.effectiveGasTipValue, Transaction.gasPrice, TxData.gasPrice,
      Transaction.gasFeeCap, TxData.gasFeeCap]
  | dynamicFee t c =>
    cases inner <;> simp only [HoldsPrices] at h
    obtain ⟨htc, ht, -⟩ := h
    simp only [TxCells.gasTipCap, TxCells.gasFeeCap] at hmax hfee hkeep
    rw [hmax, hkeep t htc, hfee]
    simp_all [Transaction.effectiveGasTipValue, Transaction.gasFeeCap, TxData.gasFeeCap]

end TxCells

theorem Transaction.lowerFeeCap_gasFeeCap (tx : Transaction Addr Hash) (k : ℕ) :
    (tx.lowerFeeCap k).gasFeeCap = tx.gasFeeCap - k := by
  obtain ⟨inner, sender⟩ := tx
  cases inner <;> rfl

@[simp] theorem Transaction.lowerFeeCap_zero (tx : Transaction Addr Hash) : tx.lowerFeeCap 0 = tx := by
  obtain ⟨inner, sender⟩ := tx
  cases inner <;> rfl

/-- A comparison of two values both lowered by one amount within them is the comparison of the values. -/
theorem cmp_sub_sub {x y k : ℕ} (hx : k ≤ x) (hy : k ≤ y) : cmp (x - k) (y - k) = cmp x y := by
  unfold cmp
  split_ifs <;> omega

/-- The cells two transactions of a comparison read and write are apart: the fee caps, which the comparison
writes, from each other, from the other's tip cap and from the base fee. -/
structure CellsApart (a b : TxCells) (baseFee : ℕ) : Prop where
  feeCaps : a.gasFeeCap ≠ b.gasFeeCap
  tip_feeCap : a.gasTipCap ≠ b.gasFeeCap
  feeCap_tip : a.gasFeeCap ≠ b.gasTipCap
  baseFee_a : baseFee ≠ a.gasFeeCap
  baseFee_b : baseFee ≠ b.gasFeeCap

section Comparisons

open TxCells

variable {ca cb : TxCells} {a b : Transaction Addr Hash} {baseFee : ℕ} {heap : ℕ → ℕ}

/-- The first comparison of two transactions whose prices the cells hold, within `uint256` and above the base
fee: `PriceHeap.cmp` of the two, with the cells left holding the two with their fee caps lowered by the base fee
and the base fee as it was. -/
theorem priceHeapCmp_holdsPrices (happ : CellsApart ca cb baseFee) (ha : ca.HoldsPrices heap a)
    (hb : cb.HoldsPrices heap b) (hlea : heap baseFee ≤ a.gasFeeCap) (hleb : heap baseFee ≤ b.gasFeeCap)
    (hcapa : a.gasFeeCap < u256) (hcapb : b.gasFeeCap < u256) :
    (priceHeapCmp (some baseFee) ca cb heap).1 = PriceHeap.cmp (some (heap baseFee)) a b ∧
      ca.HoldsPrices (priceHeapCmp (some baseFee) ca cb heap).2 (a.lowerFeeCap (heap baseFee)) ∧
      cb.HoldsPrices (priceHeapCmp (some baseFee) ca cb heap).2 (b.lowerFeeCap (heap baseFee)) ∧
      (priceHeapCmp (some baseFee) ca cb heap).2 baseFee = heap baseFee := by
  -- `a`'s effective tip first, on the heap as it is; its write is apart from `b`'s cells and the base fee
  obtain ⟨hva, ha₁⟩ := ha.effectiveGasTip hlea hcapa
  have hkeep₁ : ∀ c, c ≠ ca.gasFeeCap → (ca.effectiveGasTip (some baseFee) heap).2.1 c = heap c :=
    fun c hc => by rw [effectiveGasTip_heap, Function.update_of_ne hc]
  have hbase₁ := hkeep₁ _ happ.baseFee_a
  have hb₁ := hb.congr (hkeep₁ _ happ.feeCap_tip.symm) (hkeep₁ _ happ.feeCaps.symm)
  -- then `b`'s, on the heap `a`'s leaves
  obtain ⟨hvb, hb₂⟩ := hb₁.effectiveGasTip (hbase₁.symm ▸ hleb) hcapb
  rw [hbase₁] at hvb hb₂
  have hkeep₂ : ∀ c, c ≠ cb.gasFeeCap → (cb.effectiveGasTip (some baseFee)
      (ca.effectiveGasTip (some baseFee) heap).2.1).2.1 c = (ca.effectiveGasTip (some baseFee) heap).2.1 c :=
    fun c hc => by rw [effectiveGasTip_heap, Function.update_of_ne hc]
  have ha₂ := ha₁.congr (hkeep₂ _ happ.tip_feeCap) (hkeep₂ _ happ.feeCaps)
  have hheap : (priceHeapCmp (some baseFee) ca cb heap).2 =
      (cb.effectiveGasTip (some baseFee) (ca.effectiveGasTip (some baseFee) heap).2.1).2.1 := by
    rw [priceHeapCmp_heap, effectiveGasTipCmp_heap]
  refine ⟨?_, hheap ▸ ha₂, hheap ▸ hb₂, hheap ▸ (hkeep₂ _ happ.baseFee_b).trans hbase₁⟩
  -- the cell `a`'s effective tip is in is apart from `b`'s fee cap
  have hne : (ca.effectiveGasTip (some baseFee) heap).1 ≠ cb.gasFeeCap := by
    rcases effectiveGasTip_fst ca baseFee heap with h | h <;> rw [h]
    exacts [happ.tip_feeCap, happ.feeCaps]
  have hgpa := ha₂.gasFeeCap
  have hgpb := hb₂.gasFeeCap
  rw [Transaction.lowerFeeCap_gasFeeCap] at hgpa hgpb
  -- the effective tips compare as the values do, and so do the fee caps, lowered alike
  have htips : (ca.effectiveGasTipCmp cb (some baseFee) heap).1 =
      cmp (a.effectiveGasTipValue (heap baseFee)) (b.effectiveGasTipValue (heap baseFee)) := by
    rw [effectiveGasTipCmp_fst]
    dsimp only
    rw [hkeep₂ _ hne, hva, hvb]
  have hprices : cmp ((ca.effectiveGasTipCmp cb (some baseFee) heap).2 ca.gasPrice)
      ((ca.effectiveGasTipCmp cb (some baseFee) heap).2 cb.gasPrice) = cmp a.gasPrice b.gasPrice := by
    rw [effectiveGasTipCmp_heap, gasPrice_eq_gasFeeCap, gasPrice_eq_gasFeeCap, hgpa, hgpb, cmp_sub_sub hlea hleb,
      Transaction.gasPrice_eq_gasFeeCap, Transaction.gasPrice_eq_gasFeeCap]
  rw [priceHeapCmp_fst]
  simp only [htips, hprices, PriceHeap.cmp, ite_self]

/-- The comparisons of a heap, one after the other, on two transactions whose prices the cells hold: after
`n` of them the cells hold the two with their fee caps lowered `n` times by the base fee. -/
theorem iterate_priceHeapCmp_holdsPrices (happ : CellsApart ca cb baseFee) (ha : ca.HoldsPrices heap a)
    (hb : cb.HoldsPrices heap b) (hcapa : a.gasFeeCap < u256) (hcapb : b.gasFeeCap < u256) :
    ∀ n, n * heap baseFee ≤ a.gasFeeCap → n * heap baseFee ≤ b.gasFeeCap →
      ca.HoldsPrices ((fun h => (priceHeapCmp (some baseFee) ca cb h).2)^[n] heap)
          (a.lowerFeeCap (n * heap baseFee)) ∧
        cb.HoldsPrices ((fun h => (priceHeapCmp (some baseFee) ca cb h).2)^[n] heap)
          (b.lowerFeeCap (n * heap baseFee)) ∧
        (fun h => (priceHeapCmp (some baseFee) ca cb h).2)^[n] heap baseFee = heap baseFee
  | 0, _, _ => by simpa using ⟨ha, hb⟩
  | n + 1, hna, hnb => by
    rw [Nat.succ_mul] at hna hnb
    obtain ⟨ha', hb', hbase⟩ := iterate_priceHeapCmp_holdsPrices happ ha hb hcapa hcapb n (by omega) (by omega)
    have hlea : (fun h => (priceHeapCmp (some baseFee) ca cb h).2)^[n] heap baseFee ≤
        (a.lowerFeeCap (n * heap baseFee)).gasFeeCap := by
      rw [Transaction.lowerFeeCap_gasFeeCap, hbase]
      omega
    have hleb : (fun h => (priceHeapCmp (some baseFee) ca cb h).2)^[n] heap baseFee ≤
        (b.lowerFeeCap (n * heap baseFee)).gasFeeCap := by
      rw [Transaction.lowerFeeCap_gasFeeCap, hbase]
      omega
    -- one more comparison lowers both fee caps once more
    obtain ⟨-, ha'', hb'', hbase'⟩ := priceHeapCmp_holdsPrices happ ha' hb' hlea hleb
      (by rw [Transaction.lowerFeeCap_gasFeeCap]; omega) (by rw [Transaction.lowerFeeCap_gasFeeCap]; omega)
    rw [Function.iterate_succ_apply']
    rw [hbase, Transaction.lowerFeeCap_lowerFeeCap, ← Nat.succ_mul] at ha'' hb''
    exact ⟨ha'', hb'', hbase'.trans hbase⟩

/-- The comparison `n + 1` of two transactions in the heap compares them with their fee caps lowered `n` times
by the base fee: the order of two transactions moves while they sit in the heap. -/
theorem priceHeapCmp_iterate_eq_cmp (happ : CellsApart ca cb baseFee) (ha : ca.HoldsPrices heap a)
    (hb : cb.HoldsPrices heap b) (hcapa : a.gasFeeCap < u256) (hcapb : b.gasFeeCap < u256) (n : ℕ)
    (hna : (n + 1) * heap baseFee ≤ a.gasFeeCap) (hnb : (n + 1) * heap baseFee ≤ b.gasFeeCap) :
    (priceHeapCmp (some baseFee) ca cb ((fun h => (priceHeapCmp (some baseFee) ca cb h).2)^[n] heap)).1 =
      PriceHeap.cmp (some (heap baseFee)) (a.lowerFeeCap (n * heap baseFee)) (b.lowerFeeCap (n * heap baseFee)) := by
  rw [Nat.succ_mul] at hna hnb
  obtain ⟨ha', hb', hbase⟩ := iterate_priceHeapCmp_holdsPrices happ ha hb hcapa hcapb n (by omega) (by omega)
  have hcap : ∀ tx : Transaction Addr Hash, tx.gasFeeCap < u256 →
      (tx.lowerFeeCap (n * heap baseFee)).gasFeeCap < u256 :=
    fun tx h => by rw [Transaction.lowerFeeCap_gasFeeCap]; omega
  have h := (priceHeapCmp_holdsPrices happ ha' hb' (by rw [hbase, Transaction.lowerFeeCap_gasFeeCap]; omega)
    (by rw [hbase, Transaction.lowerFeeCap_gasFeeCap]; omega) (hcap a hcapa) (hcap b hcapb)).1
  rwa [hbase] at h

/-- A dynamic fee transaction with a tip of `5` under a fee cap of `100`, its cells at `0` and `1`. -/
def highTipTx : Transaction ℕ ℕ := ⟨.dynamicFeeTx 1 0 5 100 21000 none 0 [] [] 0 0 0, 0⟩

/-- A dynamic fee transaction with no tip under a fee cap of `103`, its cells at `2` and `3`. -/
def highCapTx : Transaction ℕ ℕ := ⟨.dynamicFeeTx 1 0 0 103 21000 none 0 [] [] 0 0 0, 1⟩

/-- The cells of the two, with a base fee of `1` at `4`. -/
def twoTxHeap (c : ℕ) : ℕ :=
  if c = 0 then 5 else if c = 1 then 100 else if c = 3 then 103 else if c = 4 then 1 else 0

-- The first comparison puts `highTipTx` below `highCapTx`; the comparison 99 puts it above.
example :
    (priceHeapCmp (some 4) ⟨.dynamicFee 0 1, 5, 21000⟩ ⟨.dynamicFee 2 3, 5, 21000⟩
      ((fun h => (priceHeapCmp (some 4) ⟨.dynamicFee 0 1, 5, 21000⟩ ⟨.dynamicFee 2 3, 5, 21000⟩ h).2)^[98]
        twoTxHeap)).1 = 1 := by
  rw [@priceHeapCmp_iterate_eq_cmp _ _ ⟨.dynamicFee 0 1, 5, 21000⟩ ⟨.dynamicFee 2 3, 5, 21000⟩ highTipTx
    highCapTx 4 twoTxHeap ⟨by decide, by decide, by decide, by decide, by decide⟩ ⟨by decide, rfl, rfl⟩
    ⟨by decide, rfl, rfl⟩ (by decide) (by decide) 98 (by decide) (by decide)]
  decide

end Comparisons

/-- A transaction of a price heap under base fee `baseFee`, ordered by `Less`: `a ≤ b` when `b` is not less
than `a`. -/
def ByPrice (Addr Hash : Type) (_baseFee : Option ℕ) : Type := Transaction Addr Hash

namespace ByPrice

variable {baseFee : Option ℕ}

instance : Preorder (ByPrice Addr Hash baseFee) where
  lt a b := PriceHeap.less baseFee a b = true
  le a b := PriceHeap.less baseFee b a = false
  le_refl a := PriceHeap.less_self a
  le_trans _ _ _ hab hbc := PriceHeap.less_eq_false_trans hab hbc
  lt_iff_le_not_ge a b := by
    show PriceHeap.less baseFee a b = true ↔
      PriceHeap.less baseFee b a = false ∧ ¬ PriceHeap.less baseFee a b = false
    rw [Bool.not_eq_false]
    exact ⟨fun h => ⟨PriceHeap.less_asymm h, h⟩, And.right⟩

instance (a b : ByPrice Addr Hash baseFee) : Decidable (a < b) :=
  inferInstanceAs (Decidable (PriceHeap.less baseFee a b = true))

instance : Std.Total (fun a b : ByPrice Addr Hash baseFee => a ≤ b) where
  total a b := by
    show PriceHeap.less baseFee b a = false ∨ PriceHeap.less baseFee a b = false
    cases hab : PriceHeap.less baseFee a b with
    | false => exact .inr rfl
    | true => exact .inl (PriceHeap.less_asymm hab)

/-- The `nil` of a slice of transactions. -/
instance [Inhabited Addr] : Inhabited (ByPrice Addr Hash baseFee) := ⟨⟨.legacyTx 0 0 0 none 0 [] 0 0 0, default⟩⟩

end ByPrice

/-! ### The heaps and the list -/

/-- `priceHeap`: a base fee (none orders by the gas price) and a heap of transactions in its order. -/
structure PriceHeap (Addr Hash : Type) where
  baseFee : Option ℕ
  list : Slice (ByPrice Addr Hash baseFee)
  isHeap : list.IsHeap

namespace PriceHeap

/-- `Len()`. -/
def len (h : PriceHeap Addr Hash) : ℕ := h.list.size

/-- The transactions of the heap, in the order of its slice. -/
def txs (h : PriceHeap Addr Hash) : List (Transaction Addr Hash) := h.list.toList

/-- `list[0]`, the top of the heap. -/
def top (h : PriceHeap Addr Hash) : Transaction Addr Hash := h.list.get 0

/-- `heap.Push(h, tx)`. -/
def push (h : PriceHeap Addr Hash) (tx : Transaction Addr Hash) : PriceHeap Addr Hash :=
  ⟨h.baseFee, BinaryHeap.push h.list tx, push_isHeap h.isHeap tx⟩

/-- `heap.Pop(h)`; the source calls it on a heap that is not empty only. -/
def pop (h : PriceHeap Addr Hash) : Transaction Addr Hash × PriceHeap Addr Hash :=
  ((BinaryHeap.pop h.list).1, ⟨h.baseFee, (BinaryHeap.pop h.list).2, pop_isHeap h.isHeap⟩)

/-- `Pop` `n` times: the transactions in the order they come off, and the heap left. -/
def popN : ℕ → PriceHeap Addr Hash → List (Transaction Addr Hash) × PriceHeap Addr Hash
  | 0, h => ([], h)
  | n + 1, h => ((h.pop.1 :: (popN n h.pop.2).1), (popN n h.pop.2).2)

@[simp] theorem len_push (h : PriceHeap Addr Hash) (tx : Transaction Addr Hash) : (h.push tx).len = h.len + 1 :=
  push_size h.list tx

@[simp] theorem len_pop (h : PriceHeap Addr Hash) : h.pop.2.len = h.len - 1 :=
  pop_size h.list

@[simp] theorem baseFee_push (h : PriceHeap Addr Hash) (tx : Transaction Addr Hash) :
    (h.push tx).baseFee = h.baseFee := rfl

@[simp] theorem baseFee_pop (h : PriceHeap Addr Hash) : h.pop.2.baseFee = h.baseFee := rfl

theorem len_eq_length (h : PriceHeap Addr Hash) : h.len = h.txs.length := by
  show h.list.size = ((List.range h.list.size).map h.list.get).length
  rw [List.length_map, List.length_range]

theorem txs_push (h : PriceHeap Addr Hash) (tx : Transaction Addr Hash) : (h.push tx).txs.Perm (h.txs ++ [tx]) :=
  push_perm h.list tx

theorem top_mem {h : PriceHeap Addr Hash} (hpos : 0 < h.len) : h.top ∈ h.txs :=
  Slice.mem_toList.2 ⟨0, hpos, rfl⟩

/-- `Pop` takes the top off. -/
theorem pop_fst {h : PriceHeap Addr Hash} (hpos : 0 < h.len) : h.pop.1 = h.top :=
  (pop_spec h.isHeap hpos).1

theorem txs_pop {h : PriceHeap Addr Hash} (hpos : 0 < h.len) : (h.pop.2.txs ++ [h.pop.1]).Perm h.txs :=
  (pop_spec h.isHeap hpos).2.2

/-- No entry of a heap is less than its top. -/
theorem less_top {h : PriceHeap Addr Hash} {tx : Transaction Addr Hash} (htx : tx ∈ h.txs) :
    less h.baseFee tx h.top = false :=
  h.isHeap.get_zero_le htx

theorem popN_perm : ∀ (n : ℕ) (h : PriceHeap Addr Hash), n ≤ h.len →
    ((h.popN n).1 ++ (h.popN n).2.txs).Perm h.txs
  | 0, _, _ => .refl _
  | n + 1, h, hn => by
    have hpos : 0 < h.len := by omega
    have ih := popN_perm n h.pop.2 (by rw [len_pop]; omega)
    -- the first pop comes off first, and the others off the heap it leaves
    show (h.pop.1 :: ((h.pop.2.popN n).1 ++ (h.pop.2.popN n).2.txs)).Perm h.txs
    exact (ih.cons _).trans ((List.perm_append_singleton _ _).symm.trans (txs_pop hpos))

/-- Pushing transactions one after the other adds them to the entries. -/
theorem txs_foldl_push : ∀ (txs : List (Transaction Addr Hash)) (h : PriceHeap Addr Hash),
    (txs.foldl push h).txs.Perm (h.txs ++ txs)
  | [], h => by simp
  | tx :: txs, h =>
    calc (txs.foldl push (h.push tx)).txs
        ~ (h.push tx).txs ++ txs := txs_foldl_push txs (h.push tx)
      _ ~ h.txs ++ [tx] ++ txs := (txs_push h tx).append_right _
      _ = h.txs ++ tx :: txs := by simp

variable [Inhabited Addr]

/-- An empty heap under a base fee. -/
def empty (baseFee : Option ℕ) : PriceHeap Addr Hash :=
  ⟨baseFee, ⟨0, fun _ => default⟩, fun _ _ hcn _ => absurd hcn (Nat.not_lt_zero _)⟩

/-- A heap under `baseFee` of the given transactions, by `heap.Init`. -/
def init (baseFee : Option ℕ) (txs : List (Transaction Addr Hash)) : PriceHeap Addr Hash :=
  ⟨baseFee, BinaryHeap.init (Slice.ofList txs), init_isHeap _⟩

theorem txs_empty (baseFee : Option ℕ) : (empty baseFee : PriceHeap Addr Hash).txs = [] := rfl

theorem txs_init (baseFee : Option ℕ) (txs : List (Transaction Addr Hash)) :
    (init baseFee txs).txs.Perm txs :=
  (init_perm (Slice.ofList (α := ByPrice Addr Hash baseFee) txs)).trans
    (List.Perm.of_eq (Slice.toList_ofList (α := ByPrice Addr Hash baseFee) txs))

end PriceHeap

/-- `urgentRatio : floatingRatio`, the capacity ratio of the two heaps. -/
def urgentRatio : ℕ := 4
def floatingRatio : ℕ := 1

/-- `txPricedList` without its lock: the stale counter and the two heaps.  The pointer to the lookup is the
argument `all` of the calls that read it. -/
structure TxPricedList (Addr Hash : Type) where
  stales : ℤ
  urgent : PriceHeap Addr Hash
  floating : PriceHeap Addr Hash

namespace TxPricedList

variable [Inhabited Addr] [DecidableEq Hash] (keccak : TxData Addr Hash → Hash)

/-- `newTxPricedList`. -/
def new : TxPricedList Addr Hash := ⟨0, PriceHeap.empty none, PriceHeap.empty none⟩

/-- `Put`: a remote transaction joins the urgent heap; `Discard` balances the heaps later. -/
def put (l : TxPricedList Addr Hash) (tx : Transaction Addr Hash) (isLocal : Bool) : TxPricedList Addr Hash :=
  if isLocal then l else { l with urgent := l.urgent.push tx }

/-- `Reheap`: the remotes of the lookup in a fresh urgent heap, in the order `Range` visits them, and its
worse fifth popped into the floating heap; no entry is stale now. -/
def reheap (l : TxPricedList Addr Hash) (all : TxLookup Addr Hash) : TxPricedList Addr Hash :=
  let urgent := PriceHeap.init l.urgent.baseFee (all.remotes.entries.map (·.2))
  let floatingCount := urgent.len * floatingRatio / (urgentRatio + floatingRatio)
  ⟨0, (urgent.popN floatingCount).2, PriceHeap.init l.floating.baseFee (urgent.popN floatingCount).1⟩

/-- `Removed(count)`: count the entries gone stale, and rebuild once they pass a quarter of all. -/
def removed (l : TxPricedList Addr Hash) (all : TxLookup Addr Hash) (count : ℕ) : TxPricedList Addr Hash :=
  let l := { l with stales := l.stales + count }
  if l.stales ≤ ↑((l.urgent.len + l.floating.len) / 4) then l else l.reheap all

/-- `SetBaseFee`: the urgent heap under the new base fee, rebuilt.  `Reheap` replaces the urgent slice whole,
so the source's slice between the two steps is not kept. -/
def setBaseFee (l : TxPricedList Addr Hash) (all : TxLookup Addr Hash) (baseFee : ℕ) : TxPricedList Addr Hash :=
  reheap { l with urgent := PriceHeap.empty (some baseFee) } all

/-- Whether the lookup still holds a transaction as a remote one: an entry that is not live is stale. -/
def live (all : TxLookup Addr Hash) (tx : Transaction Addr Hash) : Bool := (all.getRemote (tx.hash keccak)).isSome

/-- The loop of `underpricedFor`: pop the stale entries at the top, counting each off the stale counter. -/
def cleanTop (all : TxLookup Addr Hash) (stales : ℤ) (h : PriceHeap Addr Hash) : ℤ × PriceHeap Addr Hash :=
  if hpos : 0 < h.len ∧ !live keccak all h.top then cleanTop all (stales - 1) h.pop.2
  else (stales, h)
termination_by h.len
decreasing_by
  rw [PriceHeap.len_pop]
  exact Nat.sub_lt hpos.1 Nat.one_pos

/-- `underpricedFor`: after the stale entries at the top are gone, whether the cheapest remote transaction
of the heap is priced at or above `tx`; the stale counter and the heap after. -/
def underpricedFor (all : TxLookup Addr Hash) (stales : ℤ) (h : PriceHeap Addr Hash)
    (tx : Transaction Addr Hash) : Bool × ℤ × PriceHeap Addr Hash :=
  let cleaned := cleanTop keccak all stales h
  if cleaned.2.len = 0 then (false, cleaned)
  else (decide (0 ≤ PriceHeap.cmp cleaned.2.baseFee cleaned.2.top tx), cleaned)

/-- `Underpriced`: whether `tx` is priced at or below the cheapest remote transaction of every heap that has
one, and some heap has one.  Each `&&` and `||` stops at the first operand that decides it, so the floating
heap is only cleaned when the urgent one does not already decide. -/
def underpriced (l : TxPricedList Addr Hash) (all : TxLookup Addr Hash) (tx : Transaction Addr Hash) :
    Bool × TxPricedList Addr Hash :=
  let ru := underpricedFor keccak all l.stales l.urgent tx
  let l := { l with stales := ru.2.1, urgent := ru.2.2 }
  if !(ru.1 || l.urgent.len == 0) then (false, l)
  else
    let rf := underpricedFor keccak all l.stales l.floating tx
    let l := { l with stales := rf.2.1, floating := rf.2.2 }
    if !(rf.1 || l.floating.len == 0) then (false, l)
    else (l.urgent.len != 0 || l.floating.len != 0, l)

/-- The loop of `Discard`: while slots are wanted, move the top of the urgent heap to the floating heap when
the urgent heap is more than four times the floating one, and else drop the top of the floating heap;
stale entries are popped and counted off.  The slots still wanted, the drops, and the list after. -/
def discardLoop (all : TxLookup Addr Hash) (slots : ℕ) (drop : List (Transaction Addr Hash))
    (l : TxPricedList Addr Hash) : ℕ × List (Transaction Addr Hash) × TxPricedList Addr Hash :=
  if _hslots : 0 < slots then
    if _hu : l.urgent.len * floatingRatio > l.floating.len * urgentRatio ∨ floatingRatio = 0 then
      let popped := l.urgent.pop
      if !live keccak all popped.1 then
        discardLoop all slots drop { l with stales := l.stales - 1, urgent := popped.2 }
      else discardLoop all slots drop { l with urgent := popped.2, floating := l.floating.push popped.1 }
    else if _hf : l.floating.len = 0 then (slots, drop, l)
    else
      let popped := l.floating.pop
      if !live keccak all popped.1 then
        discardLoop all slots drop { l with stales := l.stales - 1, floating := popped.2 }
      else discardLoop all (slots - numSlots popped.1) (drop ++ [popped.1]) { l with floating := popped.2 }
  else (slots, drop, l)
termination_by 2 * l.urgent.len + l.floating.len
decreasing_by
  all_goals
    simp only [PriceHeap.len_push, PriceHeap.len_pop, floatingRatio, urgentRatio] at *
  all_goals omega

/-- `Discard(slots, force)`: the remote transactions dropped to free `slots`, and whether that was enough or
forced; when it was neither, the drops go back into the urgent heap and nothing is returned. -/
def discard (l : TxPricedList Addr Hash) (all : TxLookup Addr Hash) (slots : ℕ) (force : Bool) :
    List (Transaction Addr Hash) × Bool × TxPricedList Addr Hash :=
  let r := discardLoop keccak all slots [] l
  if 0 < r.1 ∧ !force then ([], false, { r.2.2 with urgent := r.2.1.foldl PriceHeap.push r.2.2.urgent })
  else (r.2.1, true, r.2.2)

end TxPricedList

/-- `txPricedList` as the priced list of the pool. -/
def txPricedList [Inhabited Addr] [DecidableEq Hash] (keccak : TxData Addr Hash → Hash) :
    PricedList (TxPricedList Addr Hash) Addr Hash where
  new := TxPricedList.new
  put := TxPricedList.put
  removed := TxPricedList.removed
  underpriced := TxPricedList.underpriced keccak
  discard := TxPricedList.discard keccak
  setBaseFee := TxPricedList.setBaseFee

namespace PriceHeap

/-- An entry not less than another one priced at or above `tx` is priced at or above `tx`. -/
theorem cmp_nonneg_of_less_eq_false {baseFee : Option ℕ} {x y tx : Transaction Addr Hash}
    (hxy : less baseFee y x = false) (hx : 0 ≤ cmp baseFee x tx) : 0 ≤ cmp baseFee y tx := by
  rw [Bool.eq_false_iff, ne_eq, less_iff] at hxy
  rw [cmp_nonneg_iff] at hx ⊢
  omega

end PriceHeap

/-! ### Reheap, Underpriced and Discard -/


namespace TxPricedList

/-- The entries of both heaps. -/
def entries (l : TxPricedList Addr Hash) : List (Transaction Addr Hash) := l.urgent.txs ++ l.floating.txs

variable [Inhabited Addr] [DecidableEq Hash] (keccak : TxData Addr Hash → Hash)

/-- After `Reheap` the heaps hold the remotes of the lookup, each once, and the stale counter is zero. -/
theorem reheap_entries (l : TxPricedList Addr Hash) (all : TxLookup Addr Hash) :
    (l.reheap all).entries.Perm (all.remotes.entries.map (·.2)) ∧ (l.reheap all).stales = 0 := by
  refine ⟨?_, rfl⟩
  let urgent := PriceHeap.init l.urgent.baseFee (all.remotes.entries.map (·.2))
  let k := urgent.len * floatingRatio / (urgentRatio + floatingRatio)
  have hk : k ≤ urgent.len := by
    show urgent.len * 1 / (4 + 1) ≤ urgent.len
    omega
  -- the floating heap holds what came off the urgent one
  calc (l.reheap all).entries
      = (urgent.popN k).2.txs ++ (PriceHeap.init l.floating.baseFee (urgent.popN k).1).txs := rfl
    _ ~ (urgent.popN k).2.txs ++ (urgent.popN k).1 := (PriceHeap.txs_init _ _).append_left _
    _ ~ (urgent.popN k).1 ++ (urgent.popN k).2.txs := List.perm_append_comm
    _ ~ urgent.txs := PriceHeap.popN_perm k urgent hk
    _ ~ all.remotes.entries.map (·.2) := PriceHeap.txs_init _ _

/-- `Put` of a remote transaction adds an entry for it, whether or not the heaps hold one already. -/
theorem entries_put (l : TxPricedList Addr Hash) (tx : Transaction Addr Hash) (isLocal : Bool) :
    (l.put tx isLocal).entries.Perm (if isLocal then l.entries else l.entries ++ [tx]) := by
  unfold put
  cases isLocal with
  | true => exact .refl _
  | false =>
    show (l.urgent.push tx).txs ++ l.floating.txs ~ l.urgent.txs ++ l.floating.txs ++ [tx]
    calc (l.urgent.push tx).txs ++ l.floating.txs
        ~ l.urgent.txs ++ [tx] ++ l.floating.txs := (PriceHeap.txs_push _ _).append_right _
      _ = l.urgent.txs ++ ([tx] ++ l.floating.txs) := List.append_assoc ..
      _ ~ l.urgent.txs ++ (l.floating.txs ++ [tx]) := List.perm_append_comm.append_left _
      _ = l.urgent.txs ++ l.floating.txs ++ [tx] := (List.append_assoc ..).symm

/-- `underpricedFor`'s loop pops stale entries only, one count each, and stops at a live top or at an empty
heap. -/
theorem cleanTop_spec (all : TxLookup Addr Hash) (stales : ℤ) (h : PriceHeap Addr Hash) :
    ∃ gone : List (Transaction Addr Hash), (∀ tx ∈ gone, live keccak all tx = false) ∧
      ((cleanTop keccak all stales h).2.txs ++ gone).Perm h.txs ∧
      (cleanTop keccak all stales h).1 = stales - gone.length ∧
      (cleanTop keccak all stales h).2.baseFee = h.baseFee ∧
      ((cleanTop keccak all stales h).2.len = 0 ∨ live keccak all (cleanTop keccak all stales h).2.top = true) := by
  fun_induction cleanTop keccak all stales h with
  | case1 stales h hpos ih =>
    obtain ⟨gone, hgone, hperm, hst, hbf, htop⟩ := ih
    refine ⟨gone ++ [h.top], fun tx htx => ?_, ?_, ?_, hbf, htop⟩
    · rcases List.mem_append.1 htx with htx | htx
      · exact hgone tx htx
      · rw [List.mem_singleton.1 htx]
        simpa using hpos.2
    · rw [← List.append_assoc, ← PriceHeap.pop_fst hpos.1]
      exact (hperm.append_right _).trans (PriceHeap.txs_pop hpos.1)
    · rw [hst, List.length_append, List.length_singleton]
      push_cast
      omega
  | case2 stales h hstop =>
    refine ⟨[], by simp, by simp, by simp, rfl, ?_⟩
    rcases Nat.eq_zero_or_pos h.len with h0 | hpos
    · exact .inl h0
    · exact .inr (by simpa [hpos] using hstop)

/-- Every live entry of `txs` is priced at or above `tx` in the order of base fee `baseFee`. -/
def PricedAtLeast (all : TxLookup Addr Hash) (baseFee : Option ℕ) (txs : List (Transaction Addr Hash))
    (tx : Transaction Addr Hash) : Prop :=
  ∀ y ∈ txs, live keccak all y = true → 0 ≤ PriceHeap.cmp baseFee y tx

section Cleaned

variable {all : TxLookup Addr Hash} {stales : ℤ} {h : PriceHeap Addr Hash}

theorem mem_cleanTop_of_live (stales : ℤ) {y : Transaction Addr Hash} (hy : y ∈ h.txs)
    (hlive : live keccak all y = true) : y ∈ (cleanTop keccak all stales h).2.txs := by
  obtain ⟨gone, hgone, hperm, -⟩ := cleanTop_spec keccak all stales h
  rcases List.mem_append.1 (hperm.mem_iff.2 hy) with hy | hy
  · exact hy
  · rw [hgone y hy] at hlive
    cases hlive

theorem mem_of_mem_cleanTop {y : Transaction Addr Hash} (hy : y ∈ (cleanTop keccak all stales h).2.txs) :
    y ∈ h.txs := by
  obtain ⟨gone, -, hperm, -⟩ := cleanTop_spec keccak all stales h
  exact hperm.mem_iff.1 (List.mem_append_left _ hy)

/-- The cleaned heap is empty exactly when the heap has no live entry. -/
theorem len_cleanTop_eq_zero_iff :
    (cleanTop keccak all stales h).2.len = 0 ↔ ∀ y ∈ h.txs, live keccak all y = false := by
  obtain ⟨-, -, -, -, -, htop⟩ := cleanTop_spec keccak all stales h
  constructor
  · intro h0 y hy
    cases hlive : live keccak all y with
    | false => rfl
    | true =>
      have hmem := mem_cleanTop_of_live keccak stales hy hlive
      rw [PriceHeap.len_eq_length, List.length_eq_zero_iff] at h0
      rw [h0] at hmem
      cases hmem
  · intro hnone
    rcases Nat.eq_zero_or_pos (cleanTop keccak all stales h).2.len with h0 | hpos
    · exact h0
    · -- a live top would be a live entry of the heap
      have hlive := htop.resolve_left (by omega)
      rw [hnone _ (mem_of_mem_cleanTop keccak (PriceHeap.top_mem hpos))] at hlive
      cases hlive

/-- On a heap with a live entry, the top left after cleaning is priced at or above `tx` exactly when every
live entry is. -/
theorem cmp_cleanTop_nonneg_iff {tx : Transaction Addr Hash} (hpos : 0 < (cleanTop keccak all stales h).2.len) :
    0 ≤ PriceHeap.cmp h.baseFee (cleanTop keccak all stales h).2.top tx ↔ PricedAtLeast keccak all h.baseFee h.txs tx := by
  obtain ⟨-, -, -, -, hbf, htop⟩ := cleanTop_spec keccak all stales h
  have hlive : live keccak all (cleanTop keccak all stales h).2.top = true := htop.resolve_left (by omega)
  constructor
  · intro hnonneg y hy hylive
    -- the top of the cleaned heap is at most every entry of it
    have hle := PriceHeap.less_top (mem_cleanTop_of_live keccak stales hy hylive)
    rw [hbf] at hle
    exact PriceHeap.cmp_nonneg_of_less_eq_false hle hnonneg
  · intro hall
    exact hall _ (mem_of_mem_cleanTop keccak (PriceHeap.top_mem hpos)) hlive

end Cleaned

/-- A heap that `Underpriced` asks about is settled, the heap being empty or `tx` cheap enough for it, exactly
when every live entry of it is priced at or above `tx`. -/
theorem underpricedFor_or_empty_iff (all : TxLookup Addr Hash) (stales : ℤ) (h : PriceHeap Addr Hash)
    (tx : Transaction Addr Hash) :
    ((underpricedFor keccak all stales h tx).1 || (underpricedFor keccak all stales h tx).2.2.len == 0) = true ↔
      PricedAtLeast keccak all h.baseFee h.txs tx := by
  obtain ⟨-, -, -, -, hbf, -⟩ := cleanTop_spec keccak all stales h
  unfold underpricedFor
  dsimp only
  split_ifs with h0
  · -- no live entry: nothing to compare
    simp only [Bool.false_or, h0, beq_self_eq_true, true_iff]
    intro y hy hlive
    rw [(len_cleanTop_eq_zero_iff keccak).1 h0 y hy] at hlive
    cases hlive
  · rw [hbf, Bool.or_eq_true, decide_eq_true_eq, beq_iff_eq, or_iff_left h0]
    exact cmp_cleanTop_nonneg_iff keccak (Nat.pos_of_ne_zero h0)

theorem len_underpricedFor_eq_zero_iff (all : TxLookup Addr Hash) (stales : ℤ) (h : PriceHeap Addr Hash)
    (tx : Transaction Addr Hash) :
    (underpricedFor keccak all stales h tx).2.2.len = 0 ↔ ∀ y ∈ h.txs, live keccak all y = false := by
  unfold underpricedFor
  dsimp only
  split_ifs <;> exact len_cleanTop_eq_zero_iff keccak

/-- `Underpriced(tx)` holds exactly when some entry is live and, in each heap, every live entry is priced at or
above `tx` in that heap's order: the source's test of the cheapest live entry of every heap that has one. -/
theorem underpriced_iff (l : TxPricedList Addr Hash) (all : TxLookup Addr Hash) (tx : Transaction Addr Hash) :
    (l.underpriced keccak all tx).1 = true ↔ (∃ y ∈ l.entries, live keccak all y = true) ∧
      PricedAtLeast keccak all l.urgent.baseFee l.urgent.txs tx ∧
      PricedAtLeast keccak all l.floating.baseFee l.floating.txs tx := by
  have hu := underpricedFor_or_empty_iff keccak all l.stales l.urgent tx
  have hf := underpricedFor_or_empty_iff keccak all
    (underpricedFor keccak all l.stales l.urgent tx).2.1 l.floating tx
  have hu0 := len_underpricedFor_eq_zero_iff keccak all l.stales l.urgent tx
  have hf0 := len_underpricedFor_eq_zero_iff keccak all
    (underpricedFor keccak all l.stales l.urgent tx).2.1 l.floating tx
  unfold underpriced
  dsimp only
  split_ifs with hU hF
  · -- the urgent heap already decides
    simp only [Bool.not_eq_true', false_iff] at hU ⊢
    exact fun ⟨_, hpu, _⟩ => absurd (hu.2 hpu) (by rw [hU]; decide)
  · simp only [Bool.not_eq_true', false_iff] at hF ⊢
    exact fun ⟨_, _, hpf⟩ => absurd (hf.2 hpf) (by rw [hF]; decide)
  · simp only [Bool.not_eq_true', Bool.not_eq_false] at hU hF
    -- both heaps are settled; some entry is live exactly when a cleaned heap is not empty
    have hlive : (∃ y ∈ l.entries, live keccak all y = true) ↔
        ¬ (underpricedFor keccak all l.stales l.urgent tx).2.2.len = 0 ∨
          ¬ (underpricedFor keccak all (underpricedFor keccak all l.stales l.urgent tx).2.1 l.floating tx).2.2.len = 0 := by
      rw [hu0, hf0]
      simp only [entries, List.mem_append, not_forall, Bool.not_eq_false, exists_prop]
      constructor
      · rintro ⟨y, hy | hy, hlive⟩
        · exact .inl ⟨y, hy, hlive⟩
        · exact .inr ⟨y, hy, hlive⟩
      · rintro (⟨y, hy, hlive⟩ | ⟨y, hy, hlive⟩)
        · exact ⟨y, .inl hy, hlive⟩
        · exact ⟨y, .inr hy, hlive⟩
    rw [hlive, ← hu, ← hf, hU, hF]
    simp

/-! The moves of `Discard`'s loop, on the entries of both heaps. -/

/-- The top popped off a heap and put after other entries: the same entries. -/
theorem perm_pop_append {h : PriceHeap Addr Hash} (hpos : 0 < h.len) (rest : List (Transaction Addr Hash)) :
    (h.pop.2.txs ++ (rest ++ [h.pop.1])).Perm (h.txs ++ rest) :=
  calc h.pop.2.txs ++ (rest ++ [h.pop.1])
      ~ h.pop.2.txs ++ ([h.pop.1] ++ rest) := List.perm_append_comm.append_left _
    _ = h.pop.2.txs ++ [h.pop.1] ++ rest := (List.append_assoc ..).symm
    _ ~ h.txs ++ rest := (PriceHeap.txs_pop hpos).append_right _

theorem entries_pop_urgent (l : TxPricedList Addr Hash) (stales : ℤ) (hpos : 0 < l.urgent.len) :
    ((⟨stales, l.urgent.pop.2, l.floating⟩ : TxPricedList Addr Hash).entries ++ [l.urgent.pop.1]).Perm l.entries := by
  show (l.urgent.pop.2.txs ++ l.floating.txs ++ [l.urgent.pop.1]).Perm (l.urgent.txs ++ l.floating.txs)
  rw [List.append_assoc]
  exact perm_pop_append hpos _

theorem entries_move (l : TxPricedList Addr Hash) (hpos : 0 < l.urgent.len) :
    (⟨l.stales, l.urgent.pop.2, l.floating.push l.urgent.pop.1⟩ : TxPricedList Addr Hash).entries.Perm l.entries :=
  ((PriceHeap.txs_push _ _).append_left _).trans (perm_pop_append hpos _)

theorem entries_pop_floating (l : TxPricedList Addr Hash) (stales : ℤ) (hpos : 0 < l.floating.len) :
    ((⟨stales, l.urgent, l.floating.pop.2⟩ : TxPricedList Addr Hash).entries ++ [l.floating.pop.1]).Perm l.entries := by
  show (l.urgent.txs ++ l.floating.pop.2.txs ++ [l.floating.pop.1]).Perm (l.urgent.txs ++ l.floating.txs)
  rw [List.append_assoc]
  exact (PriceHeap.txs_pop hpos).append_left _

/-- What `Discard`'s loop does: it drops live remote transactions, a slot each, pops stale entries, a count
each, and moves the rest from the urgent heap to the floating one. -/
theorem discardLoop_spec (all : TxLookup Addr Hash) (slots : ℕ) (drop : List (Transaction Addr Hash))
    (l : TxPricedList Addr Hash) :
    ∃ new gone : List (Transaction Addr Hash), (discardLoop keccak all slots drop l).2.1 = drop ++ new ∧
      (∀ tx ∈ new, live keccak all tx = true) ∧ (∀ tx ∈ gone, live keccak all tx = false) ∧
      ((discardLoop keccak all slots drop l).2.2.entries ++ new ++ gone).Perm l.entries ∧
      (discardLoop keccak all slots drop l).2.2.stales = l.stales - gone.length ∧
      (discardLoop keccak all slots drop l).1 = slots - new.length := by
  fun_induction discardLoop keccak all slots drop l with
  | case1 slots drop l _ hu popped hstale ih =>
    -- a stale top of the urgent heap: popped and counted off
    have hpos : 0 < l.urgent.len := by
      simp only [floatingRatio, urgentRatio] at hu
      omega
    obtain ⟨new, gone, hd, hnew, hgone, hperm, hst, hsl⟩ := ih
    refine ⟨new, gone ++ [popped.1], hd, hnew, fun tx htx => ?_, ?_, ?_, hsl⟩
    · rcases List.mem_append.1 htx with htx | htx
      · exact hgone tx htx
      · rw [List.mem_singleton.1 htx]
        simpa using hstale
    · rw [← List.append_assoc]
      exact (hperm.append_right _).trans (entries_pop_urgent l _ hpos)
    · rw [hst, List.length_append, List.length_singleton]
      push_cast
      omega
  | case2 slots drop l _ hu popped _ ih =>
    -- a live top of the urgent heap: moved to the floating heap
    have hpos : 0 < l.urgent.len := by
      simp only [floatingRatio, urgentRatio] at hu
      omega
    obtain ⟨new, gone, hd, hnew, hgone, hperm, hst, hsl⟩ := ih
    exact ⟨new, gone, hd, hnew, hgone, hperm.trans (entries_move l hpos), hst, hsl⟩
  | case3 slots drop l _ _ _ => exact ⟨[], [], by simp, by simp, by simp, by simp, by simp, by simp⟩
  | case4 slots drop l _ _ hf popped hstale ih =>
    -- a stale top of the floating heap: popped and counted off
    obtain ⟨new, gone, hd, hnew, hgone, hperm, hst, hsl⟩ := ih
    refine ⟨new, gone ++ [popped.1], hd, hnew, fun tx htx => ?_, ?_, ?_, hsl⟩
    · rcases List.mem_append.1 htx with htx | htx
      · exact hgone tx htx
      · rw [List.mem_singleton.1 htx]
        simpa using hstale
    · rw [← List.append_assoc]
      exact (hperm.append_right _).trans (entries_pop_floating l _ (Nat.pos_of_ne_zero hf))
    · rw [hst, List.length_append, List.length_singleton]
      push_cast
      omega
  | case5 slots drop l _ _ hf popped hlive ih =>
    -- a live top of the floating heap: dropped, for one slot
    obtain ⟨new, gone, hd, hnew, hgone, hperm, hst, hsl⟩ := ih
    refine ⟨popped.1 :: new, gone, by rw [hd]; simp, fun tx htx => ?_, hgone, ?_, hst, ?_⟩
    · rcases List.mem_cons.1 htx with rfl | htx
      · simpa using hlive
      · exact hnew tx htx
    · -- the dropped top stands among the drops now
      set r := (discardLoop keccak all (slots - numSlots popped.1) (drop ++ [popped.1])
        ⟨l.stales, l.urgent, popped.2⟩).2.2.entries
      calc r ++ popped.1 :: new ++ gone
          = r ++ popped.1 :: (new ++ gone) := by simp
        _ ~ popped.1 :: (r ++ (new ++ gone)) := List.perm_middle
        _ ~ r ++ (new ++ gone) ++ [popped.1] := (List.perm_append_singleton _ _).symm
        _ = r ++ new ++ gone ++ [popped.1] := by simp
        _ ~ (⟨l.stales, l.urgent, popped.2⟩ : TxPricedList Addr Hash).entries ++ [popped.1] := hperm.append_right _
        _ ~ l.entries := entries_pop_floating l _ (Nat.pos_of_ne_zero hf)
    · rw [hsl, numSlots_eq_one, List.length_cons]
      omega
  | case6 slots drop l _ => exact ⟨[], [], by simp, by simp, by simp, by simp, by simp, by simp⟩

/-- `Discard` returns live remote transactions only, as many as the slots asked for unless it is forced, and
a refusal leaves the live entries of the heaps as they were. -/
theorem discard_spec (l : TxPricedList Addr Hash) (all : TxLookup Addr Hash) (slots : ℕ) (force : Bool) :
    (∀ tx ∈ (l.discard keccak all slots force).1, live keccak all tx = true) ∧
      ((l.discard keccak all slots force).2.1 = true → force = false →
        slots ≤ ((l.discard keccak all slots force).1.map numSlots).sum) ∧
      ((l.discard keccak all slots force).2.1 = false →
        ((l.discard keccak all slots force).2.2.entries.filter (live keccak all)).Perm
          (l.entries.filter (live keccak all))) := by
  obtain ⟨new, gone, hd, hnew, hgone, hperm, -, hsl⟩ := discardLoop_spec keccak all slots [] l
  rw [List.nil_append] at hd
  unfold discard
  dsimp only
  split_ifs with hfail
  · -- refused: the drops go back into the urgent heap, and only stale entries are gone
    refine ⟨fun _ h => absurd h List.not_mem_nil, fun h => by simp at h, fun _ => ?_⟩
    have hback : ({ (discardLoop keccak all slots [] l).2.2 with
        urgent := (discardLoop keccak all slots [] l).2.1.foldl PriceHeap.push
          (discardLoop keccak all slots [] l).2.2.urgent } : TxPricedList Addr Hash).entries.Perm
        ((discardLoop keccak all slots [] l).2.2.entries ++ new) := by
      rw [hd]
      refine ((PriceHeap.txs_foldl_push _ _).append_right _).trans ?_
      simp only [entries, List.append_assoc]
      exact List.perm_append_comm.append_left _
    have hstale : gone.filter (live keccak all) = [] :=
      List.filter_eq_nil_iff.2 fun tx htx => by rw [hgone tx htx]; decide
    refine (hback.filter _).trans ?_
    have := hperm.filter (live keccak all)
    rw [List.filter_append, hstale, List.append_nil] at this
    exact this
  · rw [hd]
    refine ⟨hnew, fun _ hforce => ?_, fun h => by simp at h⟩
    -- not refused and not forced: the loop ended with no slot wanted
    have h0 : (discardLoop keccak all slots [] l).1 = 0 := by
      by_contra hne
      exact hfail ⟨Nat.pos_of_ne_zero hne, by simp [hforce]⟩
    rw [hsl] at h0
    rw [sum_numSlots]
    omega

end TxPricedList

/-! ### A transaction dropped by `promoteExecutables` and added again -/

/-- The pool of the examples over `txPricedList`: numbers for addresses and hashes, a transaction's nonce for
its hash, and no forks. -/
def pricedEnv : PoolEnv (TxPricedList ℕ ℕ) ℕ ℕ where
  keccak := TxData.nonce
  chainConfig := ⟨none, none, none, none, none, none, false⟩
  calcBaseFee := fun _ => 0
  priced := txPricedList TxData.nonce

/-- Genesis, a block 1 whose gas limit is below the gas of a transfer, and a block 2 with the limit back. -/
def pricedGenesis : Block ℕ := ⟨0, 0, 0, 30000000⟩

def lowGasBlock : Block ℕ := ⟨1, 1, 0, 20000⟩

def highGasBlock : Block ℕ := ⟨2, 2, 1, 30000000⟩

/-- A state in which every account has nonce 0 and balance 10 ^ 18. -/
def fundedState : StateReader ℕ := ⟨fun _ => 0, fun _ => 10 ^ 18⟩

/-- A legacy transfer from account 1 with nonce 0, gas price 1 and the 21000 gas of a transfer. -/
def remoteTransfer : Transaction ℕ ℕ := ⟨.legacyTx 0 1 21000 (some 2) 1 [] 27 1 1, 1⟩

/-- Account 1's transfer is added as a remote transaction and queued; the head moves to block 1, where
`promoteExecutables` drops it from the queue for its gas, then to block 2; and the transfer is added again. -/
def readdedPool : TxsPool (TxPricedList ℕ ℕ) ℕ ℕ :=
  ((((newTxsPool pricedEnv pricedGenesis fundedState 0).step pricedEnv (.add remoteTransfer false 0)).step
    pricedEnv (.runReorg (some ⟨some pricedGenesis, lowGasBlock, none, some fundedState⟩) none 0)).step
    pricedEnv (.runReorg (some ⟨some lowGasBlock, highGasBlock, none, some fundedState⟩) none 0)).step
    pricedEnv (.add remoteTransfer false 0)

/-- A reachable pool whose heaps hold its one remote transaction twice, both entries live, with the stale
counter at zero: the drop in block 1 told the priced list nothing, so its entry stayed, uncounted, and came
alive again with the second `add`. -/
theorem readdedPool_tracks_remote_twice :
    Reachable pricedEnv readdedPool ∧ readdedPool.all.remotes.entries.map (·.2) = [remoteTransfer] ∧
      readdedPool.priced.entries.filter (TxPricedList.live TxData.nonce readdedPool.all) =
        [remoteTransfer, remoteTransfer] ∧
      readdedPool.priced.stales = 0 :=
  ⟨.step _ (.step _ (.step _ (.step _ (.newTxsPool _ _ _)))), by decide +kernel, by decide +kernel,
    by decide +kernel⟩

end AmazeChain.Txspool
