import AmazeChain.Vm.Call
import AmazeChain.Txspool.Tx

/-!
# Gas estimation

`DoEstimateGas` (`internal/api/api.go`): the highest gas limit from the request or the block, capped by what the
balance pays at the fee cap and by the RPC gas cap, then a binary search between `TxGas - 1` and that limit for
the least gas limit at which `DoCall` does not fail, and a last call at the limit when the search never lowered
it.  `DoCall` is a parameter, seen as `executable` sees it: an error wrapping `ErrIntrinsicGas` counts as a failed
call, any other error ends the estimation, and a result fails when it carries an error.  The loop has no bound
in the source, so the model runs it on fuel, and `none` is a loop that did not end.

Up to a cap of `2 ^ 63` no sum wraps.  For a call whose success only grows with the gas limit, the search keeps
`lo` failing (or `TxGas - 1`) and `hi` succeeding (or the cap) and halves the gap (`SearchInv`, `search_spec`), so
within 64 iterations it returns the least gas limit from `TxGas` to the cap at which the call succeeds, or an
error when there is none (`estimate_least`); a gas cap of at most `2 ^ 63`, as the RPC server's, ensures this
(`doEstimateGas_least`).  Both callers, `BlockChainAPI.EstimateGas` and `TransactionArgs.setDefaults`, pass
`50000000`, so every request, whatever gas limit it asks for, is searched below `2 ^ 26` and ends within 27
iterations (`estimateGas_least`).

The midpoint `(hi + lo) / 2` is computed in `uint64`.  For a limit near `2 ^ 64` the sum wraps and the midpoint
falls below `lo`; a failed call there lowers `lo` instead of raising it.  Only a gas cap of zero, which no caller
passes, leaves such a limit uncapped: then, with no fee cap, a call that fails at every gas limit below `2 ^ 63`
drives `lo` round a cycle below `2 ^ 63` for ever (`doEstimateGas_never_ends`).
-/

namespace AmazeChain.Api

open Vm.EVM (VmError)
open Txspool (u64)

/-- `params.TxGas`. -/
def txGas : ℕ := 21000

/-- What `DoCall` gives for a gas limit, as `executable` reads it. -/
inductive CallResult where
  /-- An error that wraps `ErrIntrinsicGas`. -/
  | intrinsicGas
  /-- Any other error of `DoCall`. -/
  | error (msg : String)
  /-- The execution's result: its error, if it failed, and its revert data. -/
  | result (err : Option VmError) (revert : List UInt8)

/-- The errors `DoEstimateGas` returns. -/
inductive EstimateError where
  /-- An error with a message: of the request, or of `DoCall`. -/
  | message (msg : String)
  /-- `newRevertError` of the revert data. -/
  | revert (data : List UInt8)
  /-- The execution's error. -/
  | exec (err : VmError)
  /-- "gas required exceeds allowance". -/
  | exceedsAllowance (cap : ℕ)

/-- The fields of `TransactionArgs` the estimation reads; the rest is in `DoCall`. -/
structure TransactionArgs where
  gas : Option ℕ
  gasPrice : Option ℕ
  maxFeePerGas : Option ℕ
  maxPriorityFeePerGas : Option ℕ
  value : Option ℕ

/-- `executable`: whether the call fails at `gas` and its result, or the error that ends the estimation. -/
def executable (doCall : ℕ → CallResult) (gas : ℕ) :
    Except EstimateError (Bool × Option (Option VmError × List UInt8)) :=
  match doCall gas with
  -- special case, raise gas limit
  | .intrinsicGas => .ok (true, none)
  | .error msg => .error (.message msg)
  | .result err revert => .ok (err.isSome, some (err, revert))

/-- The binary search on `fuel` iterations: the gas limit it hones in on, or the error of a call. -/
def search (doCall : ℕ → CallResult) : ℕ → ℕ → ℕ → Option (Except EstimateError ℕ)
  | 0, _, _ => none
  | fuel + 1, lo, hi =>
    if (lo + 1) % u64 < hi then
      let mid := (hi + lo) % u64 / 2
      match executable doCall mid with
      | .error e => some (.error e)
      | .ok (failed, _) => if failed then search doCall fuel mid hi else search doCall fuel lo mid
    else some (.ok hi)

/-- The last check: the highest allowance is rejected if the call still fails there. -/
def finish (doCall : ℕ → CallResult) (cap hi : ℕ) : Except EstimateError ℕ :=
  if hi = cap then
    match executable doCall hi with
    | .error e => .error e
    | .ok (false, _) => .ok hi
    | .ok (true, some (some err, revert)) =>
      if err ≠ .errOutOfGas then
        if revert.length > 0 then .error (.revert revert) else .error (.exec err)
      -- otherwise, the specified gas cap is too low
      else .error (.exceedsAllowance cap)
    | .ok (true, _) => .error (.exceedsAllowance cap)
  else .ok hi

/-- The highest gas limit of the request: its own from `TxGas` up, else the block's. -/
def requestedGas (args : TransactionArgs) (blockGasLimit : Option ℕ) : Except EstimateError ℕ :=
  match args.gas with
  | some gas => if gas ≥ txGas then .ok gas else blockGasLimit.elim (.error (.message "block not found")) .ok
  | none => blockGasLimit.elim (.error (.message "block not found")) .ok

/-- The fee cap of the request: its gas price, else its fee cap, else zero. -/
def feeCapOf (args : TransactionArgs) : Except EstimateError ℕ :=
  if args.gasPrice.isSome ∧ (args.maxFeePerGas.isSome ∨ args.maxPriorityFeePerGas.isSome) then
    .error (.message "both gasPrice and (maxFeePerGas or maxPriorityFeePerGas) specified")
  else .ok (args.gasPrice.getD (args.maxFeePerGas.getD 0))

/-- The limit recapped with the gas the balance pays for at the fee cap, when that fits in `uint64`. -/
def recapWithBalance (args : TransactionArgs) (balance feeCap hi : ℕ) : Except EstimateError ℕ :=
  if feeCap = 0 then .ok hi
  else
    let available := balance
    match args.value with
    | some value =>
      if value ≥ available then .error (.message "insufficient funds for transfer")
      else
        let allowance := (available - value) / feeCap
        .ok (if allowance < u64 ∧ hi > allowance then allowance else hi)
    | none =>
      let allowance := available / feeCap
      .ok (if allowance < u64 ∧ hi > allowance then allowance else hi)

/-- `DoEstimateGas` with `fuel` iterations of the search; `none` when the search has not ended. -/
def doEstimateGas (fuel : ℕ) (doCall : ℕ → CallResult) (args : TransactionArgs) (blockGasLimit : Option ℕ)
    (balance gasCap : ℕ) : Option (Except EstimateError ℕ) :=
  let lo := txGas - 1
  match requestedGas args blockGasLimit >>= fun hi => feeCapOf args >>= fun feeCap =>
      recapWithBalance args balance feeCap hi with
  | .error e => some (.error e)
  | .ok hi =>
    -- recap the highest gas allowance with the specified gas cap
    let hi := if gasCap ≠ 0 ∧ hi > gasCap then gasCap else hi
    let cap := hi
    (search doCall fuel lo hi).map fun r => r >>= finish doCall cap

/-- Whether `executable` sees the call fail at `gas`. -/
def failsAt (doCall : ℕ → CallResult) (gas : ℕ) : Bool :=
  match doCall gas with
  | .result none _ => false
  | _ => true

/-! ### Below `2 ^ 63` the search finds the least gas limit -/

section Search

variable {doCall : ℕ → CallResult}

/-- A call whose `DoCall` never fails with an error other than the intrinsic gas. -/
def NoCallError (doCall : ℕ → CallResult) : Prop := ∀ g msg, doCall g ≠ .error msg

theorem executable_of_noCallError (h : NoCallError doCall) (g : ℕ) :
    ∃ r, executable doCall g = .ok (failsAt doCall g, r) := by
  unfold executable failsAt
  cases hg : doCall g with
  | intrinsicGas => exact ⟨_, rfl⟩
  | error msg => exact absurd hg (h g msg)
  | result err revert => cases err <;> exact ⟨_, rfl⟩

/-- What the search keeps: `lo` fails or is `TxGas - 1`, `hi` succeeds or is the cap, and no sum wraps. -/
structure SearchInv (doCall : ℕ → CallResult) (cap lo hi : ℕ) : Prop where
  lt : lo < hi
  le_cap : hi ≤ cap
  cap_le : cap ≤ 2 ^ 63
  lo_fails : lo = txGas - 1 ∨ failsAt doCall lo = true
  hi_succeeds : hi = cap ∨ failsAt doCall hi = false

/-- With enough fuel for the gap, the search ends on a limit just above one that fails or is `TxGas - 1`, which
succeeds or is the cap. -/
theorem search_spec (hnoerr : NoCallError doCall) {cap : ℕ} :
    ∀ (fuel : ℕ) {lo hi : ℕ}, SearchInv doCall cap lo hi → hi - lo ≤ 2 ^ fuel →
      ∃ h, search doCall (fuel + 1) lo hi = some (.ok h) ∧ h ≤ cap ∧
        (h - 1 = txGas - 1 ∨ failsAt doCall (h - 1) = true) ∧ (h = cap ∨ failsAt doCall h = false)
  | fuel, lo, hi, hinv, hgap => by
    have hsmall : (lo + 1) % u64 = lo + 1 := by
      have := hinv.cap_le
      have := hinv.le_cap
      have := hinv.lt
      unfold u64
      omega
    by_cases hcont : lo + 1 < hi
    · cases fuel with
      | zero =>
        rw [Nat.pow_zero] at hgap
        omega
      | succ fuel =>
        -- the midpoint of a sum below `2 ^ 64`, strictly between `lo` and `hi`
        have hmid : (hi + lo) % u64 = hi + lo := by
          have := hinv.cap_le
          have := hinv.le_cap
          unfold u64
          omega
        obtain ⟨r, hexec⟩ := executable_of_noCallError hnoerr ((hi + lo) / 2)
        rw [search, if_pos (by rw [hsmall]; exact hcont)]
        dsimp only
        rw [hmid, hexec]
        dsimp only
        have hpow : 2 ^ (fuel + 1) = 2 ^ fuel * 2 := Nat.pow_succ 2 fuel
        cases hfails : failsAt doCall ((hi + lo) / 2) with
        | true =>
          -- a failure raises `lo` to the midpoint
          exact search_spec hnoerr fuel ⟨by omega, hinv.le_cap, hinv.cap_le, .inr hfails,
            hinv.hi_succeeds⟩ (by omega)
        | false =>
          -- a success lowers `hi` to the midpoint
          exact search_spec hnoerr fuel ⟨by omega, by have := hinv.le_cap; omega, hinv.cap_le,
            hinv.lo_fails, .inr hfails⟩ (by omega)
    · -- the gap is closed: `hi` is just above `lo`
      have hhi : hi = lo + 1 := by
        have := hinv.lt
        omega
      refine ⟨hi, ?_, hinv.le_cap, ?_, hinv.hi_succeeds⟩
      · rw [search, if_neg (by rw [hsmall]; exact hcont)]
      · rw [hhi, Nat.add_sub_cancel]
        exact hinv.lo_fails
  termination_by fuel => fuel

theorem finish_of_ne {cap h : ℕ} (hne : h ≠ cap) : finish doCall cap h = .ok h := by
  rw [finish, if_neg hne]

theorem finish_of_succeeds {cap : ℕ} {r : Option (Option VmError × List UInt8)}
    (hexec : executable doCall cap = .ok (false, r)) : finish doCall cap cap = .ok cap := by
  rw [finish, if_pos rfl, hexec]

/-- A call that still fails at the cap is rejected, with its revert, its error or "gas required exceeds
allowance". -/
theorem finish_of_fails {cap : ℕ} {r : Option (Option VmError × List UInt8)}
    (hexec : executable doCall cap = .ok (true, r)) : ∃ e, finish doCall cap cap = .error e := by
  rw [finish, if_pos rfl, hexec]
  -- the result: none (the intrinsic gas), a success-shaped one, or an error with its revert data
  rcases r with _ | ⟨_ | err, revert⟩
  · exact ⟨_, rfl⟩
  · exact ⟨_, rfl⟩
  · dsimp only
    split_ifs <;> exact ⟨_, rfl⟩

/-- For a call whose success only grows with the gas limit and that fails below `TxGas`, a limit that succeeds
just above one that fails or is `TxGas - 1` is the least from which the call succeeds. -/
theorem least_of_boundary (hmono : ∀ g g', g ≤ g' → failsAt doCall g' = true → failsAt doCall g = true)
    (hintr : ∀ g < txGas, failsAt doCall g = true) {h : ℕ} (hsucc : failsAt doCall h = false)
    (hbelow : h - 1 = txGas - 1 ∨ failsAt doCall (h - 1) = true) :
    txGas ≤ h ∧ ∀ g' < h, failsAt doCall g' = true := by
  have hge : txGas ≤ h := by
    by_contra hlt
    rw [hintr h (Nat.lt_of_not_le hlt)] at hsucc
    cases hsucc
  refine ⟨hge, fun g' hg' => ?_⟩
  by_cases hsmall : g' < txGas
  · exact hintr g' hsmall
  · rcases hbelow with heq | hfail
    · unfold txGas at heq hsmall hge
      omega
    · exact hmono g' (h - 1) (by omega) hfail

/-- Up to a cap of `2 ^ 63`, for a call whose success only grows with the gas limit, that fails below `TxGas` and
never errs otherwise, the search ends within `fuel + 1` iterations when the gap is at most `2 ^ fuel` and, with
the last check, returns the least gas limit from `TxGas` to the cap at which the call succeeds, or an error when
there is none. -/
theorem estimate_least (hnoerr : NoCallError doCall)
    (hmono : ∀ g g', g ≤ g' → failsAt doCall g' = true → failsAt doCall g = true)
    (hintr : ∀ g < txGas, failsAt doCall g = true) {cap : ℕ} (hcap : cap ≤ 2 ^ 63) (fuel : ℕ)
    (hfuel : cap - (txGas - 1) ≤ 2 ^ fuel) :
    ∃ r, (search doCall (fuel + 1) (txGas - 1) cap).map (fun r => r >>= finish doCall cap) = some r ∧
      ((∃ g, r = .ok g ∧ txGas ≤ g ∧ g ≤ cap ∧ failsAt doCall g = false ∧ ∀ g' < g, failsAt doCall g' = true) ∨
        (∃ e, r = .error e ∧ ∀ g ≤ cap, failsAt doCall g = true)) := by
  by_cases hlow : cap ≤ txGas - 1
  · -- no gas limit from `TxGas` up to the cap: the search stops at once and the check fails
    have hsearch : search doCall (fuel + 1) (txGas - 1) cap = some (.ok cap) := by
      rw [search, if_neg (by unfold u64 txGas at *; omega)]
    have hfails : failsAt doCall cap = true := hintr cap (by unfold txGas at *; omega)
    obtain ⟨r, hexec⟩ := executable_of_noCallError hnoerr cap
    rw [hfails] at hexec
    obtain ⟨e, he⟩ := finish_of_fails hexec
    refine ⟨.error e, by rw [hsearch]; exact congrArg some he, .inr ⟨e, rfl, fun g hg => ?_⟩⟩
    exact hmono g cap hg hfails
  · have hinv : SearchInv doCall cap (txGas - 1) cap := ⟨by omega, Nat.le_refl _, hcap, .inl rfl, .inl rfl⟩
    obtain ⟨h, hsearch, hle, hbelow, hsucc⟩ := search_spec hnoerr fuel hinv hfuel
    rw [hsearch]
    by_cases hcap' : h = cap
    · -- the search ended at the cap: the last check decides
      subst hcap'
      obtain ⟨r, hexec⟩ := executable_of_noCallError hnoerr h
      cases hfails : failsAt doCall h with
      | false =>
        rw [hfails] at hexec
        obtain ⟨hge, hless⟩ := least_of_boundary hmono hintr hfails hbelow
        exact ⟨_, rfl, .inl ⟨h, finish_of_succeeds hexec, hge, Nat.le_refl _, hfails, hless⟩⟩
      | true =>
        rw [hfails] at hexec
        obtain ⟨e, he⟩ := finish_of_fails hexec
        exact ⟨_, rfl, .inr ⟨e, he, fun g hg => hmono g h hg hfails⟩⟩
    · -- below the cap the search ended on a limit that succeeds
      have hsucc := hsucc.resolve_left hcap'
      obtain ⟨hge, hless⟩ := least_of_boundary hmono hintr hsucc hbelow
      exact ⟨_, rfl, .inl ⟨h, finish_of_ne hcap', hge, hle, hsucc, hless⟩⟩

/-- The highest gas allowance of a request: its own limit or the block's, recapped by the balance at the fee
cap. -/
def gasAllowance (args : TransactionArgs) (blockGasLimit : Option ℕ) (balance : ℕ) : Except EstimateError ℕ :=
  requestedGas args blockGasLimit >>= fun hi => feeCapOf args >>= fun feeCap => recapWithBalance args balance feeCap hi

/-- A request whose allowance is an error ends with that error. -/
theorem doEstimateGas_of_setup_error {args : TransactionArgs} {blockGasLimit : Option ℕ} {balance gasCap : ℕ}
    {e : EstimateError} (hsetup : gasAllowance args blockGasLimit balance = .error e) (fuel : ℕ) :
    doEstimateGas fuel doCall args blockGasLimit balance gasCap = some (.error e) := by
  unfold doEstimateGas
  rw [show (requestedGas args blockGasLimit >>= fun hi => feeCapOf args >>= fun feeCap =>
    recapWithBalance args balance feeCap hi) = .error e from hsetup]

/-- Past the allowance, `DoEstimateGas` is the search up to the allowance recapped by a gas cap, and the last
check there. -/
theorem doEstimateGas_of_setup {args : TransactionArgs} {blockGasLimit : Option ℕ} {balance gasCap hi fuel : ℕ}
    (hgasCap : gasCap ≠ 0) (hsetup : (requestedGas args blockGasLimit >>= fun hi => feeCapOf args >>= fun feeCap =>
      recapWithBalance args balance feeCap hi) = .ok hi) :
    doEstimateGas fuel doCall args blockGasLimit balance gasCap =
      (search doCall fuel (txGas - 1) (min hi gasCap)).map fun r => r >>= finish doCall (min hi gasCap) := by
  -- the recap with the gas cap is the minimum
  have hcap : (if gasCap ≠ 0 ∧ hi > gasCap then gasCap else hi) = min hi gasCap := by
    split_ifs with h
    · exact (Nat.min_eq_right (Nat.le_of_lt h.2)).symm
    · exact (Nat.min_eq_left (by omega)).symm
  unfold doEstimateGas
  rw [hsetup]
  dsimp only
  rw [hcap]

/-- With a gas cap of at most `2 ^ 63`, as the RPC server's `50000000`, `DoEstimateGas` returns within 64
iterations the least gas limit from `TxGas` up to its cap at which the call succeeds, or an error when there is
none. -/
theorem doEstimateGas_least (hnoerr : NoCallError doCall)
    (hmono : ∀ g g', g ≤ g' → failsAt doCall g' = true → failsAt doCall g = true)
    (hintr : ∀ g < txGas, failsAt doCall g = true) {args : TransactionArgs} {blockGasLimit : Option ℕ}
    {balance gasCap hi : ℕ} (hgasCap : gasCap ≠ 0) (hle : gasCap ≤ 2 ^ 63)
    (hsetup : (requestedGas args blockGasLimit >>= fun hi => feeCapOf args >>= fun feeCap =>
      recapWithBalance args balance feeCap hi) = .ok hi) :
    ∃ r, doEstimateGas 64 doCall args blockGasLimit balance gasCap = some r ∧
      ((∃ g, r = .ok g ∧ txGas ≤ g ∧ g ≤ min hi gasCap ∧ failsAt doCall g = false ∧
          ∀ g' < g, failsAt doCall g' = true) ∨
        (∃ e, r = .error e ∧ ∀ g ≤ min hi gasCap, failsAt doCall g = true)) := by
  have hcap : min hi gasCap ≤ 2 ^ 63 := Nat.le_trans (Nat.min_le_right _ _) hle
  rw [doEstimateGas_of_setup hgasCap hsetup]
  exact estimate_least hnoerr hmono hintr hcap 63 (by unfold txGas; omega)

/-- A call that runs out of gas below `30000` and succeeds from there. -/
def succeedsFrom30000 : ℕ → CallResult := fun g =>
  if g < 30000 then .result (some .errOutOfGas) [] else .result none []

theorem failsAt_succeedsFrom30000 (g : ℕ) : failsAt succeedsFrom30000 g = decide (g < 30000) := by
  unfold failsAt succeedsFrom30000
  by_cases h : g < 30000 <;> simp [h]

theorem doEstimateGas_least_succeedsFrom30000 :
    ∃ r, doEstimateGas 64 succeedsFrom30000 ⟨some 50000, none, none, none, none⟩ none 0 50000000 = some r ∧
      ((∃ g, r = .ok g ∧ txGas ≤ g ∧ g ≤ min 50000 50000000 ∧ failsAt succeedsFrom30000 g = false ∧
          ∀ g' < g, failsAt succeedsFrom30000 g' = true) ∨
        (∃ e, r = .error e ∧ ∀ g ≤ min 50000 50000000, failsAt succeedsFrom30000 g = true)) :=
  doEstimateGas_least
    (fun g msg => by unfold succeedsFrom30000; split_ifs <;> simp)
    (fun g g' hg hfails => by
      rw [failsAt_succeedsFrom30000] at hfails ⊢
      simp only [decide_eq_true_eq] at hfails ⊢
      omega)
    (fun g hg => by
      rw [failsAt_succeedsFrom30000]
      simp only [txGas] at hg
      simp only [decide_eq_true_eq]
      omega)
    (by decide) (by decide) rfl

/-- `rpcGasCap`, the gas cap of the RPC server. -/
def rpcGasCap : ℕ := 50000000

/-- `BlockChainAPI.EstimateGas`: the estimation at the RPC server's gas cap.  The other caller,
`TransactionArgs.setDefaults`, passes the same `50000000` for a request without a gas limit. -/
def estimateGas (fuel : ℕ) (doCall : ℕ → CallResult) (args : TransactionArgs) (blockGasLimit : Option ℕ)
    (balance : ℕ) : Option (Except EstimateError ℕ) :=
  doEstimateGas fuel doCall args blockGasLimit balance rpcGasCap

/-- At the gas cap its callers pass, for every request, however close its gas limit is to `2 ^ 64`, and for
a call whose success only grows with the gas limit, that fails below `TxGas` and never errs otherwise,
`DoEstimateGas` ends within 27 iterations of the search: it returns the error of a request it cannot set up,
and otherwise the least gas limit from `TxGas` up to the allowance capped at `50000000` at which the call
succeeds, or an error when there is none. -/
theorem estimateGas_least (hnoerr : NoCallError doCall)
    (hmono : ∀ g g', g ≤ g' → failsAt doCall g' = true → failsAt doCall g = true)
    (hintr : ∀ g < txGas, failsAt doCall g = true) (args : TransactionArgs) (blockGasLimit : Option ℕ)
    (balance : ℕ) :
    ∃ r, estimateGas 27 doCall args blockGasLimit balance = some r ∧
      ((∃ e, gasAllowance args blockGasLimit balance = .error e ∧ r = .error e) ∨
        ∃ hi, gasAllowance args blockGasLimit balance = .ok hi ∧
          ((∃ g, r = .ok g ∧ txGas ≤ g ∧ g ≤ min hi rpcGasCap ∧ failsAt doCall g = false ∧
              ∀ g' < g, failsAt doCall g' = true) ∨
            (∃ e, r = .error e ∧ ∀ g ≤ min hi rpcGasCap, failsAt doCall g = true))) := by
  unfold estimateGas
  cases hsetup : gasAllowance args blockGasLimit balance with
  | error e => exact ⟨_, doEstimateGas_of_setup_error hsetup 27, .inl ⟨e, rfl, rfl⟩⟩
  | ok hi =>
    -- the cap is at most `50000000`, so the gap from `TxGas - 1` is below `2 ^ 26`
    have hcap : min hi rpcGasCap ≤ 2 ^ 63 := Nat.le_trans (Nat.min_le_right _ _) (by decide)
    have hgap : min hi rpcGasCap - (txGas - 1) ≤ 2 ^ 26 := by
      unfold rpcGasCap txGas
      omega
    rw [doEstimateGas_of_setup (by decide) hsetup]
    obtain ⟨r, hr, hleast⟩ := estimate_least hnoerr hmono hintr hcap 26 hgap
    exact ⟨r, hr, .inr ⟨hi, rfl, hleast⟩⟩

/-- A request at the top of `uint64` with a call that succeeds from `30000` gas: the estimation ends at the
RPC's cap. -/
theorem estimateGas_least_topRequest :
    ∃ r, estimateGas 27 succeedsFrom30000 ⟨some (2 ^ 64 - 1), none, none, none, none⟩ none 0 = some r ∧
      ((∃ e, gasAllowance ⟨some (2 ^ 64 - 1), none, none, none, none⟩ none 0 = .error e ∧ r = .error e) ∨
        ∃ hi, gasAllowance ⟨some (2 ^ 64 - 1), none, none, none, none⟩ none 0 = .ok hi ∧
          ((∃ g, r = .ok g ∧ txGas ≤ g ∧ g ≤ min hi rpcGasCap ∧ failsAt succeedsFrom30000 g = false ∧
              ∀ g' < g, failsAt succeedsFrom30000 g' = true) ∨
            (∃ e, r = .error e ∧ ∀ g ≤ min hi rpcGasCap, failsAt succeedsFrom30000 g = true))) :=
  estimateGas_least
    (fun g msg => by unfold succeedsFrom30000; split_ifs <;> simp)
    (fun g g' hg hfails => by
      rw [failsAt_succeedsFrom30000] at hfails ⊢
      simp only [decide_eq_true_eq] at hfails ⊢
      omega)
    (fun g hg => by
      rw [failsAt_succeedsFrom30000]
      simp only [txGas] at hg
      simp only [decide_eq_true_eq]
      omega)
    _ _ _

end Search

/-! ### The search never ends near `2 ^ 64` -/

/-- A call that fails at every gas limit below `2 ^ 63`. -/
def FailsBelow (doCall : ℕ → CallResult) : Prop :=
  ∀ g < 2 ^ 63, doCall g = .intrinsicGas ∨ ∃ err revert, doCall g = .result (some err) revert

theorem executable_of_fails {doCall : ℕ → CallResult} (h : FailsBelow doCall) {g : ℕ} (hg : g < 2 ^ 63) :
    ∃ r, executable doCall g = .ok (true, r) := by
  unfold executable
  rcases h g hg with h | ⟨err, revert, h⟩ <;> simp [h]

/-- The midpoint of anything in `uint64` is below `2 ^ 63`. -/
theorem mid_lt (hi lo : ℕ) : (hi + lo) % u64 / 2 < 2 ^ 63 := by
  unfold u64
  omega

/-- Below `2 ^ 63` failed calls keep the search going at the limit `2 ^ 64 - 1`, whatever the fuel. -/
theorem search_top_of_fails {doCall : ℕ → CallResult} (h : FailsBelow doCall) :
    ∀ (fuel : ℕ) {lo : ℕ}, lo < 2 ^ 63 → search doCall fuel lo (u64 - 1) = none
  | 0, _, _ => rfl
  | fuel + 1, lo, hlo => by
    have hcont : (lo + 1) % u64 < u64 - 1 := by
      unfold u64
      omega
    obtain ⟨r, hexec⟩ := executable_of_fails h (mid_lt (u64 - 1) lo)
    rw [search, if_pos hcont]
    dsimp only
    rw [hexec]
    -- the call failed: the midpoint becomes `lo`, and stays below `2 ^ 63`
    exact search_top_of_fails h fuel (mid_lt (u64 - 1) lo)

/-- Asked for the gas limit `2 ^ 64 - 1` with no gas cap and no fee cap, for a call that fails at every gas limit
below `2 ^ 63`, `DoEstimateGas` never ends: no fuel is enough. -/
theorem doEstimateGas_never_ends (fuel : ℕ) {doCall : ℕ → CallResult} (hfails : FailsBelow doCall)
    {args : TransactionArgs} (hgas : args.gas = some (u64 - 1)) (hprice : args.gasPrice = none)
    (hmaxFee : args.maxFeePerGas = none) (blockGasLimit : Option ℕ) (balance : ℕ) :
    doEstimateGas fuel doCall args blockGasLimit balance 0 = none := by
  have hreq : requestedGas args blockGasLimit = .ok (u64 - 1) := by
    unfold requestedGas
    rw [hgas]
    dsimp only
    rw [if_pos (by unfold u64 txGas; omega)]
  have hfee : feeCapOf args = .ok 0 := by
    unfold feeCapOf
    rw [hprice, hmaxFee]
    simp
  unfold doEstimateGas
  simp only [hreq, hfee, bind, Except.bind, recapWithBalance, if_true]
  rw [if_neg (by simp), search_top_of_fails hfails fuel (by unfold txGas; omega)]
  rfl

/-- A call that always reverts. -/
def alwaysReverts : ℕ → CallResult := fun _ => .result (some .errExecutionReverted) []

/-- The request for the largest gas limit, with no fee. -/
def topRequest : TransactionArgs :=
  { gas := some (u64 - 1), gasPrice := none, maxFeePerGas := none, maxPriorityFeePerGas := none, value := none }

theorem doEstimateGas_never_ends_alwaysReverts :
    FailsBelow alwaysReverts ∧ topRequest.gas = some (u64 - 1) ∧ topRequest.gasPrice = none ∧
      topRequest.maxFeePerGas = none ∧ doEstimateGas 1000 alwaysReverts topRequest none 0 0 = none :=
  ⟨fun _ _ => .inr ⟨_, _, rfl⟩, rfl, rfl, rfl,
    @doEstimateGas_never_ends 1000 alwaysReverts (fun _ _ => .inr ⟨_, _, rfl⟩) topRequest rfl rfl rfl none 0⟩

end AmazeChain.Api
