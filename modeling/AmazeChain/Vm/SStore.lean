import AmazeChain.Vm.Gas
import AmazeChain.State.IntraBlockState

/-!
# The gas of SSTORE and the refund counter

`makeGasSStoreFunc` (`internal/vm/operations_acl.go`) prices an `SSTORE` under EIP-2200 with the costs of
EIP-2929: Berlin's jump table uses it with the clearing refund `SstoreClearsScheduleRefundEIP2200`
(`gasSStoreEIP2929`), London's with `SstoreClearsScheduleRefundEIP3529` (`gasSStoreEIP3529`).  It reads the
current value of the slot, warms the slot, and, unless the store writes the value already there, the value
at the start of the transaction (`GetCommittedState`).  What it charges and the calls it makes on the refund
counter are the table of EIP-2200 over the three values (`sstoreGas`, `sstoreRefunds`).  `sstoreStep` is one
`SSTORE` of `Run` after its stack checks: the gas function, `UseGas` and `opSstore`; `sstoreRun` runs the
stores of a frame one after another, with what runs between them left out.

Per slot the table is sound: it takes the clearing refund back only from a slot that holds it, nonzero at
the start of the transaction and zero now (`sstoreRefunds_subRefund`), and the refunds of every store cover
what the slot's `potential` grows by (`potential_le_refunds`).  The counter, though, is a `uint64`, and
`AddRefund` wraps.  Clearing enough slots that were nonzero wraps it past zero, and the store that then sets
one of them again takes the clearing refund from a counter below it (`sstoreRun_refund_wraps`).

The stores run in `Stores`: the contract's account is live and not deleted, its storage is the database's
(`fakeStorage`, which only the RPC's state overrides set, is `none`), and the contract's address is in a
well-formed access list, where the preparation of the transaction puts it.
-/

namespace AmazeChain.Vm

open EVM (VmError)
open State (IntraBlockState StateEnv StateObject StateReader)

/-- `params.SstoreSentryGasEIP2200`. -/
def sstoreSentryGasEIP2200 : ℕ := 2300

/-- `params.SstoreSetGasEIP2200`. -/
def sstoreSetGasEIP2200 : ℕ := 20000

/-- `params.SstoreResetGasEIP2200`. -/
def sstoreResetGasEIP2200 : ℕ := 5000

/-- `params.SstoreClearsScheduleRefundEIP2200`. -/
def sstoreClearsScheduleRefundEIP2200 : ℕ := 15000

/-- `params.ColdSloadCostEIP2929`. -/
def coldSloadCostEIP2929 : ℕ := 2100

/-- `params.TxAccessListStorageKeyGas`. -/
def txAccessListStorageKeyGas : ℕ := 1900

/-- `params.SstoreClearsScheduleRefundEIP3529`. -/
def sstoreClearsScheduleRefundEIP3529 : ℕ :=
  sstoreResetGasEIP2200 - coldSloadCostEIP2929 + txAccessListStorageKeyGas

/-- `errors.New("not enough gas for reentrancy sentry")`, one of the interpreter's other errors. -/
def errNotEnoughGasForReentrancySentry : VmError := .other 0

/-- A call on the refund counter. -/
inductive RefundCall where
  | addRefund (gas : UInt64)
  | subRefund (gas : UInt64)
  deriving DecidableEq, Repr

variable {Addr Hash : Type} [DecidableEq Addr]

/-- The call made on the state. -/
def RefundCall.apply (s : IntraBlockState Addr Hash) : RefundCall → IntraBlockState Addr Hash
  | .addRefund gas => s.addRefund gas
  | .subRefund gas => s.subRefund gas

/-- The counter after the call, in `uint64`. -/
def RefundCall.counter (refund : UInt64) : RefundCall → UInt64
  | .addRefund gas => refund + gas
  | .subRefund gas => refund - gas

/-- What the call moves the counter by, as an integer. -/
def RefundCall.delta : RefundCall → ℤ
  | .addRefund gas => gas.toNat
  | .subRefund gas => -gas.toNat

/-- The calls one after the other. -/
def applyRefunds (s : IntraBlockState Addr Hash) (calls : List RefundCall) : IntraBlockState Addr Hash :=
  calls.foldl RefundCall.apply s

/-- The gas `makeGasSStoreFunc` charges beyond the access of the slot, for a store of `value` over `current`
in a slot that held `original` at the start of the transaction. -/
def sstoreGas (original current value : BitVec 256) : ℕ :=
  if current = value then warmStorageReadCostEIP2929
  else if original = current then
    if original = 0 then sstoreSetGasEIP2200 else sstoreResetGasEIP2200 - coldSloadCostEIP2929
  else warmStorageReadCostEIP2929

/-- The calls `makeGasSStoreFunc` makes on the refund counter, in order: the cases of EIP-2200 (a no-op, a
clean slot written, a dirty slot written, with its refunds for clearing and for resetting). -/
def sstoreRefunds (clearingRefund : UInt64) (original current value : BitVec 256) : List RefundCall :=
  if current = value then []
  else if original = current then
    -- a clean slot: only its clearing earns a refund
    if original ≠ 0 ∧ value = 0 then [.addRefund clearingRefund] else []
  else
    -- a dirty slot: the clearing refund follows the slot in and out of zero
    (if original ≠ 0 then
      if current = 0 then [.subRefund clearingRefund]
      else if value = 0 then [.addRefund clearingRefund] else []
    else []) ++
    -- and a reset to the original value refunds what the first write charged beyond a read
    (if original = value then
      if original = 0 then [.addRefund (UInt64.ofNat (sstoreSetGasEIP2200 - warmStorageReadCostEIP2929))]
      else [.addRefund (UInt64.ofNat (sstoreResetGasEIP2200 - coldSloadCostEIP2929 - warmStorageReadCostEIP2929))]
    else [])

theorem applyRefunds_refund (s : IntraBlockState Addr Hash) (calls : List RefundCall) :
    (applyRefunds s calls).refund = calls.foldl RefundCall.counter s.refund := by
  induction calls generalizing s with
  | nil => rfl
  | cons c calls ih =>
    simp only [applyRefunds, List.foldl_cons] at ih ⊢
    rw [ih]
    cases c <;> rfl

variable [DecidableEq Hash] (env : StateEnv Addr Hash)

/-- The access-list check of `makeGasSStoreFunc`: a cold slot costs `ColdSloadCostEIP2929` and is added, and
an address missing from the list panics. -/
def accessSStoreSlot (s : IntraBlockState Addr Hash) (address : Addr) (slot : Hash) :
    Option (ℕ × IntraBlockState Addr Hash) :=
  (s.slotInAccessList address slot).bind fun (addrPresent, slotPresent) =>
    if !slotPresent then
      (s.addSlotToAccessList address slot).bind fun s =>
        if !addrPresent then none else some (coldSloadCostEIP2929, s)
    else some (0, s)

/-- `makeGasSStoreFunc`: the contract at `address`, with `gas` left, stores `back stack 1` at the slot
`back stack 0`; `toHash` is `types.Hash(x.Bytes32())`.  Too little gas for the sentry is an error; a panic is
`none`. -/
def makeGasSStoreFunc (clearingRefund : UInt64) (toHash : BitVec 256 → Hash) (address : Addr) (gas : ℕ)
    (stack : List (BitVec 256)) (s : IntraBlockState Addr Hash) :
    Option (Except VmError (ℕ × IntraBlockState Addr Hash)) :=
  if gas ≤ sstoreSentryGasEIP2200 then some (.error errNotEnoughGasForReentrancySentry)
  else
    let value := back stack 1
    let slot := toHash (back stack 0)
    let (current, s) := s.getState env address slot
    (accessSStoreSlot s address slot).map fun (cost, s) =>
      if current = value then .ok (cost + warmStorageReadCostEIP2929, s)
      else
        let (original, s) := s.getCommittedState env address slot
        .ok (cost + sstoreGas original current value,
          applyRefunds s (sstoreRefunds clearingRefund original current value))

/-- `gasSStoreEIP2929`, the SSTORE gas of Berlin. -/
def gasSStoreEIP2929 : (BitVec 256 → Hash) → Addr → ℕ → List (BitVec 256) → IntraBlockState Addr Hash →
    Option (Except VmError (ℕ × IntraBlockState Addr Hash)) :=
  makeGasSStoreFunc env (UInt64.ofNat sstoreClearsScheduleRefundEIP2200)

/-- `gasSStoreEIP3529`, the SSTORE gas of London. -/
def gasSStoreEIP3529 : (BitVec 256 → Hash) → Addr → ℕ → List (BitVec 256) → IntraBlockState Addr Hash →
    Option (Except VmError (ℕ × IntraBlockState Addr Hash)) :=
  makeGasSStoreFunc env (UInt64.ofNat sstoreClearsScheduleRefundEIP3529)

/-- `opSstore`: `SetState` of the value at the slot, both popped. -/
def opSstore (toHash : BitVec 256 → Hash) (address : Addr) (stack : List (BitVec 256))
    (s : IntraBlockState Addr Hash) : IntraBlockState Addr Hash :=
  s.setState env address (toHash (back stack 0)) (back stack 1)

/-- One `SSTORE` of `Run` after its stack checks (it has no constant gas): an error of the gas function and a
cost beyond the gas are `ErrOutOfGas`, and a static frame refuses the write.  An error ends the frame, whose
changes the caller reverts. -/
def sstoreStep (clearingRefund : UInt64) (toHash : BitVec 256 → Hash) (readOnly : Bool) (address : Addr)
    (gas : ℕ) (stack : List (BitVec 256)) (s : IntraBlockState Addr Hash) :
    Option (Except VmError (ℕ × IntraBlockState Addr Hash)) :=
  (makeGasSStoreFunc env clearingRefund toHash address gas stack s).map fun
    | .error _ => .error .errOutOfGas
    | .ok (cost, s) =>
      match useGas gas cost with
      | none => .error .errOutOfGas
      | some gas => if readOnly then .error .errWriteProtection else .ok (gas, opSstore env toHash address stack s)

/-- The stores of a frame, each of a value at a slot from a stack holding the slot on top of the value, one
after the other. -/
def sstoreRun (clearingRefund : UInt64) (toHash : BitVec 256 → Hash) (address : Addr) :
    List (BitVec 256 × BitVec 256) → ℕ → IntraBlockState Addr Hash →
      Option (Except VmError (ℕ × IntraBlockState Addr Hash))
  | [], gas, s => some (.ok (gas, s))
  | (loc, value) :: stores, gas, s =>
    (sstoreStep env clearingRefund toHash false address gas [loc, value] s).bind fun
      | .error err => some (.error err)
      | .ok (gas, s) => sstoreRun clearingRefund toHash address stores gas s

/-! ### The table per slot -/

/-- What a slot holds of the refund counter: the clearing refund while a slot nonzero at the start of the
transaction is zero. -/
def potential (clearingRefund : ℕ) (original current : BitVec 256) : ℕ :=
  if original ≠ 0 ∧ current = 0 then clearingRefund else 0

/-- A store takes the clearing refund back only from a slot that holds it. -/
theorem sstoreRefunds_subRefund {clearingRefund gas : UInt64} {original current value : BitVec 256}
    (h : RefundCall.subRefund gas ∈ sstoreRefunds clearingRefund original current value) :
    gas = clearingRefund ∧ potential clearingRefund.toNat original current = clearingRefund.toNat := by
  unfold sstoreRefunds at h
  -- one case per branch of the table; the only `SubRefund` is that of a cleared slot set again
  split_ifs at h <;> simp_all [potential]

/-- The refunds of a store cover what the slot's potential grows by. -/
theorem potential_le_refunds (clearingRefund : UInt64) (original current value : BitVec 256) :
    (potential clearingRefund.toNat original value : ℤ) - potential clearingRefund.toNat original current ≤
      ((sstoreRefunds clearingRefund original current value).map RefundCall.delta).sum := by
  unfold sstoreRefunds potential
  -- one case per branch of the table and of the two potentials
  split_ifs <;> simp_all [RefundCall.delta, sstoreSetGasEIP2200, sstoreResetGasEIP2200, coldSloadCostEIP2929,
    warmStorageReadCostEIP2929]

theorem sstoreRefunds_clear (clearingRefund : UInt64) {original : BitVec 256} (ho : original ≠ 0) :
    sstoreRefunds clearingRefund original original 0 = [.addRefund clearingRefund] ∧
      sstoreGas original original 0 = sstoreResetGasEIP2200 - coldSloadCostEIP2929 := by
  -- the hypothesis with the literal in the form `simp` leaves the table's comparisons in
  have ho' : ¬original = 0#256 := ho
  simp [sstoreRefunds, sstoreGas, ho']

theorem sstoreRefunds_recreate (clearingRefund : UInt64) {original value : BitVec 256} (ho : original ≠ 0)
    (hv : value ≠ 0) (hvo : value ≠ original) :
    sstoreRefunds clearingRefund original 0 value = [.subRefund clearingRefund] ∧
      sstoreGas original 0 value = warmStorageReadCostEIP2929 := by
  have ho' : ¬original = 0#256 := ho
  have hv' : ¬0#256 = value := Ne.symm hv
  simp [sstoreRefunds, sstoreGas, ho', hv', Ne.symm hvo]

/-! ### The state the stores run in -/

/-- The contract's account at `address` is live and not deleted, its storage is the database's, with the
current values `cur` and the values `orig` at the start of the transaction, and the access list is well
formed and holds the address. -/
structure Stores (s : IntraBlockState Addr Hash) (address : Addr) (cur orig : Hash → BitVec 256) : Prop where
  live : ∃ so, s.stateObjects address = some so ∧ so.deleted = false ∧ so.fakeStorage = none ∧
    (∀ key, (so.getState s.stateReader key).1 = cur key) ∧ ∀ key, (so.getCommittedState s.stateReader key).1 = orig key
  wf : s.accessList.WF
  present : (s.accessList.addresses address).isSome

section Stores

variable {s : IntraBlockState Addr Hash} {address : Addr} {cur orig : Hash → BitVec 256}

theorem getStateObject_of_live {so : StateObject Addr Hash} (hso : s.stateObjects address = some so) :
    s.getStateObject env address = (some so, s) := by
  simp [IntraBlockState.getStateObject, hso]

omit [DecidableEq Addr] in
/-- The stores see only the objects, the database and the access list. -/
theorem Stores.of_eq (h : Stores s address cur orig) {t : IntraBlockState Addr Hash}
    (hobj : t.stateObjects = s.stateObjects) (hreader : t.stateReader = s.stateReader)
    (hal : t.accessList = s.accessList) : Stores t address cur orig := by
  obtain ⟨so, hso, hdel, hfake, hcur, horig⟩ := h.live
  refine ⟨⟨so, by rw [hobj]; exact hso, hdel, hfake, ?_, ?_⟩, by rw [hal]; exact h.wf, by rw [hal]; exact h.present⟩
  · rw [hreader]; exact hcur
  · rw [hreader]; exact horig

/-- The object of a live account may be replaced by one that reads the same. -/
theorem Stores.writeObject (h : Stores s address cur orig) {so so' : StateObject Addr Hash}
    (hso : s.stateObjects address = some so) (hsame : StateObject.SameReads s.stateReader so so') :
    Stores (s.writeObject address so') address cur orig := by
  obtain ⟨so₀, hso₀, hdel, hfake, hcur, horig⟩ := h.live
  rw [hso] at hso₀
  cases hso₀
  refine ⟨⟨so', by simp, ?_, ?_, fun key => ?_, fun key => ?_⟩, h.wf, h.present⟩
  · rw [hsame.deleted, hdel]
  · rw [hsame.fakeStorage, hfake]
  · rw [IntraBlockState.writeObject_stateReader, hsame.state, hcur]
  · rw [IntraBlockState.writeObject_stateReader, hsame.committed, horig]

/-- `GetState` of a live account reads the current value and loads nothing the stores see. -/
theorem Stores.getState (h : Stores s address cur orig) (key : Hash) :
    (s.getState env address key).1 = cur key ∧ Stores (s.getState env address key).2 address cur orig ∧
      (s.getState env address key).2.refund = s.refund := by
  obtain ⟨so, hso, hdel, -, hcur, -⟩ := h.live
  have hget : s.getState env address key =
      ((so.getState s.stateReader key).1, s.writeObject address (so.getState s.stateReader key).2) := by
    simp [IntraBlockState.getState, getStateObject_of_live env hso, hdel]
  rw [hget]
  exact ⟨hcur key, h.writeObject hso (StateObject.sameReads_getState _ so key), rfl⟩

/-- `GetCommittedState` of a live account reads the value at the start of the transaction. -/
theorem Stores.getCommittedState (h : Stores s address cur orig) (key : Hash) :
    (s.getCommittedState env address key).1 = orig key ∧
      Stores (s.getCommittedState env address key).2 address cur orig ∧
      (s.getCommittedState env address key).2.refund = s.refund := by
  obtain ⟨so, hso, hdel, -, -, horig⟩ := h.live
  have hget : s.getCommittedState env address key =
      ((so.getCommittedState s.stateReader key).1, s.writeObject address (so.getCommittedState s.stateReader key).2) := by
    simp [IntraBlockState.getCommittedState, getStateObject_of_live env hso, hdel]
  rw [hget]
  exact ⟨horig key, h.writeObject hso (StateObject.sameReads_getCommittedState _ so key), rfl⟩

/-- The access-list check does not panic, costs at most `ColdSloadCostEIP2929`, and changes neither the
storage nor the counter. -/
theorem Stores.accessSStoreSlot (h : Stores s address cur orig) (slot : Hash) :
    ∃ cost t, accessSStoreSlot s address slot = some (cost, t) ∧ cost ≤ coldSloadCostEIP2929 ∧
      Stores t address cur orig ∧ t.refund = s.refund := by
  obtain ⟨slotPresent, hcontains⟩ := h.wf.contains_of_isSome h.present slot
  unfold Vm.accessSStoreSlot
  rw [IntraBlockState.slotInAccessList, hcontains, Option.bind_some]
  cases slotPresent with
  | true => exact ⟨0, s, rfl, Nat.zero_le _, h, rfl⟩
  | false =>
    -- the slot joins the list; only the list and the journal change
    obtain ⟨⟨addrMod, slotMod⟩, al, hadd, hpresent⟩ := h.wf.addSlot_isSome address slot
    let t₀ : IntraBlockState Addr Hash := { s with accessList := al }
    let t₁ := if addrMod then t₀.append (.accessListAddAccountChange address) else t₀
    let t := if slotMod then t₁.append (.accessListAddSlotChange address slot) else t₁
    have hslot : s.addSlotToAccessList address slot = some t := by
      simp [IntraBlockState.addSlotToAccessList, hadd, t, t₁, t₀]
    have ht : t.stateObjects = s.stateObjects ∧ t.stateReader = s.stateReader ∧ t.accessList = al ∧
        t.refund = s.refund := by
      simp only [t, t₁, t₀]
      split_ifs <;> exact ⟨rfl, rfl, rfl, rfl⟩
    obtain ⟨hobj, hreader, hal, hrefund⟩ := ht
    refine ⟨coldSloadCostEIP2929, t, by simp [hslot], le_rfl, ?_, hrefund⟩
    obtain ⟨so, hso, hdel, hfake, hcur, horig⟩ := h.live
    refine ⟨⟨so, by rw [hobj]; exact hso, hdel, hfake, ?_, ?_⟩, ?_, ?_⟩
    · rw [hreader]; exact hcur
    · rw [hreader]; exact horig
    · rw [hal]; exact h.wf.addSlot hadd
    · rw [hal]; exact hpresent

/-- The calls on the counter change neither the storage nor the access list. -/
theorem Stores.applyRefunds (h : Stores s address cur orig) (calls : List RefundCall) :
    Stores (applyRefunds s calls) address cur orig := by
  induction calls generalizing s with
  | nil => exact h
  | cons c calls ih =>
    simp only [Vm.applyRefunds, List.foldl_cons]
    apply ih
    cases c <;> exact h.of_eq rfl rfl rfl

/-- `SetState` on a live account writes the current value at one slot. -/
theorem Stores.setState (h : Stores s address cur orig) (key : Hash) (value : BitVec 256) :
    Stores (s.setState env address key value) address (Function.update cur key value) orig := by
  obtain ⟨so, hso, hdel, hfake, hcur, horig⟩ := h.live
  have hnew : s.getOrNewStateObject env address = (so, s) := by
    simp [IntraBlockState.getOrNewStateObject, getStateObject_of_live env hso, hdel]
  have hsame := StateObject.sameReads_getState s.stateReader so key
  have hfake₁ : (so.getState s.stateReader key).2.fakeStorage = none := by rw [hsame.fakeStorage, hfake]
  simp only [IntraBlockState.setState, hnew, IntraBlockState.objectSetState, hfake]
  split_ifs with hprev
  · -- the value is there already: only the read's loads stay, and `cur` already holds `value` at `key`
    have hupd : Function.update cur key value = cur := by
      rw [← hprev, hcur key]
      exact Function.update_eq_self key cur
    rw [hupd]
    exact h.writeObject hso hsame
  · -- the new value goes in the dirty storage
    have hstate := StateObject.setState_getState s.stateReader _ hfake₁ key
    refine ⟨⟨(so.getState s.stateReader key).2.setState key value, by simp, ?_, hfake₁, fun key' => ?_,
      fun key' => ?_⟩, h.wf, h.present⟩
    · rw [show ((so.getState s.stateReader key).2.setState key value).deleted = so.deleted from hsame.deleted, hdel]
    · simp only [IntraBlockState.writeObject_stateReader, IntraBlockState.append]
      rw [hstate key' value, hsame.state, hcur]
      by_cases hk : key' = key
      · subst hk; simp
      · simp [hk]
    · simp only [IntraBlockState.writeObject_stateReader, IntraBlockState.append]
      rw [StateObject.setState_getCommittedState, hsame.committed, horig]

/-- `SetState` on a live account leaves the counter alone. -/
theorem Stores.setState_refund (h : Stores s address cur orig) (key : Hash) (value : BitVec 256) :
    (s.setState env address key value).refund = s.refund := by
  obtain ⟨so, hso, hdel, hfake, -, -⟩ := h.live
  have hnew : s.getOrNewStateObject env address = (so, s) := by
    simp [IntraBlockState.getOrNewStateObject, getStateObject_of_live env hso, hdel]
  simp only [IntraBlockState.setState, hnew, IntraBlockState.objectSetState, hfake]
  split_ifs <;> rfl

/-! ### One store and a run of them -/

/-- With the gas for the sentry, the gas function of a live account reads the slot's values, charges the
access and the table's gas, and makes the table's calls on the counter of a state that stores as before. -/
theorem makeGasSStoreFunc_of_stores (h : Stores s address cur orig) (clearingRefund : UInt64)
    (toHash : BitVec 256 → Hash) {gas : ℕ} (hgas : sstoreSentryGasEIP2200 < gas) (loc value : BitVec 256) :
    ∃ access t, access ≤ coldSloadCostEIP2929 ∧ Stores t address cur orig ∧ t.refund = s.refund ∧
      makeGasSStoreFunc env clearingRefund toHash address gas [loc, value] s =
        some (.ok (access + sstoreGas (orig (toHash loc)) (cur (toHash loc)) value,
          applyRefunds t (sstoreRefunds clearingRefund (orig (toHash loc)) (cur (toHash loc)) value))) := by
  obtain ⟨hcur, h₁, hrefund₁⟩ := h.getState env (toHash loc)
  obtain ⟨access, t₁, hacc, hle, h₂, hrefund₂⟩ := h₁.accessSStoreSlot (toHash loc)
  have hback0 : back [loc, value] 0 = loc := rfl
  have hback1 : back [loc, value] 1 = value := rfl
  unfold makeGasSStoreFunc
  rw [if_neg (by omega), hback0, hback1]
  simp only
  rw [hacc, Option.map_some, hcur]
  by_cases hcv : cur (toHash loc) = value
  · -- a no-op reads no committed value; the table charges a read and makes no call
    refine ⟨access, t₁, hle, h₂, by rw [hrefund₂, hrefund₁], ?_⟩
    simp [hcv, sstoreGas, sstoreRefunds, Vm.applyRefunds]
  · obtain ⟨horig, h₃, hrefund₃⟩ := h₂.getCommittedState env (toHash loc)
    refine ⟨access, (t₁.getCommittedState env address (toHash loc)).2, hle, h₃,
      by rw [hrefund₃, hrefund₂, hrefund₁], ?_⟩
    rw [if_neg hcv]
    simp only
    rw [horig]

/-- One store of a live account with the gas its cost needs: the counter takes the table's calls, and the
account's current value at the slot is the stored one. -/
theorem sstoreStep_of_stores (h : Stores s address cur orig) (clearingRefund : UInt64) (toHash : BitVec 256 → Hash)
    (gas : ℕ) (loc value : BitVec 256) (hgas : sstoreSentryGasEIP2200 < gas)
    (hcost : coldSloadCostEIP2929 + sstoreGas (orig (toHash loc)) (cur (toHash loc)) value ≤ gas) :
    ∃ cost s', cost ≤ coldSloadCostEIP2929 + sstoreGas (orig (toHash loc)) (cur (toHash loc)) value ∧
      sstoreStep env clearingRefund toHash false address gas [loc, value] s = some (.ok (gas - cost, s')) ∧
      Stores s' address (Function.update cur (toHash loc) value) orig ∧
      s'.refund = (sstoreRefunds clearingRefund (orig (toHash loc)) (cur (toHash loc)) value).foldl
        RefundCall.counter s.refund := by
  obtain ⟨access, t, hle, ht, hrefund, hgasfn⟩ := makeGasSStoreFunc_of_stores env h clearingRefund toHash hgas loc value
  set cost := access + sstoreGas (orig (toHash loc)) (cur (toHash loc)) value
  have hcost' : cost ≤ gas := by omega
  have huse : useGas gas cost = some (gas - cost) := by
    unfold useGas
    rw [if_neg (by omega)]
  set calls := sstoreRefunds clearingRefund (orig (toHash loc)) (cur (toHash loc)) value
  refine ⟨cost, _, by omega, ?_, (ht.applyRefunds calls).setState env (toHash loc) value, ?_⟩
  · simp only [sstoreStep, hgasfn, Option.map_some, huse, Bool.false_eq_true, if_false]
    rfl
  · -- `SetState` leaves the counter to the calls
    rw [(ht.applyRefunds calls).setState_refund env, applyRefunds_refund, hrefund]

theorem sstoreRun_cons_of_ok {clearingRefund : UInt64} {toHash : BitVec 256 → Hash} {loc value : BitVec 256}
    {stores : List (BitVec 256 × BitVec 256)} {gas gas' : ℕ} {s' : IntraBlockState Addr Hash}
    (hstep : sstoreStep env clearingRefund toHash false address gas [loc, value] s = some (.ok (gas', s'))) :
    sstoreRun env clearingRefund toHash address ((loc, value) :: stores) gas s =
      sstoreRun env clearingRefund toHash address stores gas' s' := by
  simp [sstoreRun, hstep]

/-- Clearing slots nonzero at the start of the transaction and unchanged since, each once: every store costs
at most `SstoreResetGasEIP2200` and adds the clearing refund, in `uint64`, and the slots are zero after. -/
theorem sstoreRun_clears (clearingRefund : UInt64) (toHash : BitVec 256 → Hash) :
    ∀ (locs : List (BitVec 256)) (s : IntraBlockState Addr Hash) (cur : Hash → BitVec 256) (gas : ℕ),
      Stores s address cur orig → (locs.map toHash).Nodup →
      (∀ loc ∈ locs, cur (toHash loc) = orig (toHash loc) ∧ orig (toHash loc) ≠ 0) →
      sstoreSentryGasEIP2200 + sstoreResetGasEIP2200 * locs.length < gas →
      ∃ gas' s', sstoreRun env clearingRefund toHash address (locs.map fun loc => (loc, 0)) gas s =
          some (.ok (gas', s')) ∧ gas ≤ gas' + sstoreResetGasEIP2200 * locs.length ∧
        Stores s' address (fun key => if key ∈ locs.map toHash then 0 else cur key) orig ∧
        s'.refund.toNat = (s.refund.toNat + clearingRefund.toNat * locs.length) % 2 ^ 64
  | [], s, cur, gas, h, _, _, _ => by
    refine ⟨gas, s, rfl, by simp, by simpa using h, ?_⟩
    simp [Nat.mod_eq_of_lt (UInt64.toNat_lt s.refund)]
  | loc :: locs, s, cur, gas, h, hnd, hnz, hgas => by
    obtain ⟨hcur, horig⟩ := hnz loc List.mem_cons_self
    obtain ⟨hrefunds, hcost⟩ := sstoreRefunds_clear clearingRefund horig
    have hfresh : toHash loc ∉ locs.map toHash := (List.nodup_cons.1 hnd).1
    have hsentry : sstoreSentryGasEIP2200 = 2300 := rfl
    have hreset : sstoreResetGasEIP2200 = 5000 := rfl
    have hcold : coldSloadCostEIP2929 = 2100 := rfl
    rw [List.length_cons, Nat.mul_succ] at hgas
    -- the first store clears its slot
    obtain ⟨cost, s₁, hle, hstep, h₁, hrefund₁⟩ := sstoreStep_of_stores env h clearingRefund toHash gas loc 0
      (by omega) (by rw [hcur, hcost]; omega)
    rw [hcur, hcost] at hle
    rw [hcur, hrefunds] at hrefund₁
    -- the others see their slots as before
    have hnz₁ : ∀ l ∈ locs, Function.update cur (toHash loc) 0 (toHash l) = orig (toHash l) ∧ orig (toHash l) ≠ 0 := by
      intro l hl
      have hne : toHash l ≠ toHash loc := fun heq => hfresh (heq ▸ List.mem_map_of_mem hl)
      rw [Function.update_of_ne hne]
      exact hnz l (List.mem_cons_of_mem loc hl)
    obtain ⟨gas', s', hrun, hgas', h', hrefund'⟩ := sstoreRun_clears clearingRefund toHash locs s₁ _ (gas - cost) h₁
      (List.nodup_cons.1 hnd).2 hnz₁ (by omega)
    refine ⟨gas', s', ?_, ?_, ?_, ?_⟩
    · rw [List.map_cons, sstoreRun_cons_of_ok env hstep, hrun]
    · rw [List.length_cons, Nat.mul_succ]
      omega
    · have hfun : (fun key => if key ∈ locs.map toHash then 0 else Function.update cur (toHash loc) 0 key) =
          fun key => if key ∈ (loc :: locs).map toHash then 0 else cur key := by
        funext key
        by_cases hk : key = toHash loc
        · subst hk
          simp
        · simp [hk]
      rw [← hfun]
      exact h'
    · -- the counter takes the clearing refund once per slot, modulo 2^64
      rw [hrefund', hrefund₁, List.foldl_cons, List.foldl_nil, RefundCall.counter, UInt64.toNat_add,
        Nat.mod_add_mod, List.length_cons, Nat.mul_succ, Nat.add_assoc, Nat.add_comm clearingRefund.toNat]

/-- The counter wraps.  Clearing slots of a live account, each nonzero at the start of the transaction and
unchanged since, adds the clearing refund once per slot; when that passes `2^64` the counter wraps to below
the refund, and setting the first slot again to a new nonzero value takes the clearing refund back from it,
so that `SubRefund` finds the counter below what it takes and wraps it again. -/
theorem sstoreRun_refund_wraps (h : Stores s address cur orig) (clearingRefund : UInt64)
    (toHash : BitVec 256 → Hash) (loc : BitVec 256) (locs : List (BitVec 256))
    (hnd : ((loc :: locs).map toHash).Nodup)
    (hnz : ∀ l ∈ loc :: locs, cur (toHash l) = orig (toHash l) ∧ orig (toHash l) ≠ 0)
    (hwrap : 2 ^ 64 ≤ s.refund.toNat + clearingRefund.toNat * (locs.length + 1))
    (hfirst : s.refund.toNat + clearingRefund.toNat * (locs.length + 1) < 2 ^ 64 + clearingRefund.toNat)
    (value : BitVec 256) (hv : value ≠ 0) (hvo : value ≠ orig (toHash loc)) (gas : ℕ)
    (hgas : sstoreSentryGasEIP2200 + sstoreResetGasEIP2200 * (locs.length + 1) < gas) :
    ∃ gas' s' gas'' s'',
      sstoreRun env clearingRefund toHash address ((loc :: locs).map fun l => (l, 0)) gas s = some (.ok (gas', s')) ∧
      s'.refund.toNat + 2 ^ 64 = s.refund.toNat + clearingRefund.toNat * (locs.length + 1) ∧
      s'.refund.toNat < clearingRefund.toNat ∧
      sstoreRefunds clearingRefund (orig (toHash loc)) 0 value = [.subRefund clearingRefund] ∧
      sstoreRun env clearingRefund toHash address [(loc, value)] gas' s' = some (.ok (gas'', s'')) ∧
      s''.refund.toNat = s'.refund.toNat + 2 ^ 64 - clearingRefund.toNat := by
  obtain ⟨gas', s', hrun, hgas', h', hrefund'⟩ :=
    sstoreRun_clears env clearingRefund toHash (loc :: locs) s cur gas h hnd hnz (by simpa using hgas)
  have hsentry : sstoreSentryGasEIP2200 = 2300 := rfl
  have hreset : sstoreResetGasEIP2200 = 5000 := rfl
  have hcold : coldSloadCostEIP2929 = 2100 := rfl
  have hwarm : warmStorageReadCostEIP2929 = 100 := rfl
  rw [List.length_cons] at hgas'
  -- the clears wrapped the counter once
  have hR : clearingRefund.toNat < 2 ^ 64 := UInt64.toNat_lt clearingRefund
  have hwrapped : s'.refund.toNat + 2 ^ 64 = s.refund.toNat + clearingRefund.toNat * (locs.length + 1) := by
    rw [hrefund', List.length_cons]
    have hmod : (s.refund.toNat + clearingRefund.toNat * (locs.length + 1)) % 2 ^ 64 =
        s.refund.toNat + clearingRefund.toNat * (locs.length + 1) - 2 ^ 64 := by
      rw [Nat.mod_eq_sub_mod hwrap, Nat.mod_eq_of_lt (by omega)]
    omega
  -- the first slot is zero now and nonzero at the start: setting it again is a recreate
  obtain ⟨-, horig⟩ := hnz loc List.mem_cons_self
  have hzero : (if toHash loc ∈ (loc :: locs).map toHash then 0 else cur (toHash loc)) = 0 := by simp
  obtain ⟨hrefunds, hcost⟩ := sstoreRefunds_recreate clearingRefund horig hv hvo
  obtain ⟨cost, s'', hle, hstep, -, hrefund''⟩ := sstoreStep_of_stores env h' clearingRefund toHash gas' loc value
    (by omega) (by simp only [hzero, hcost]; omega)
  simp only [hzero, hrefunds] at hrefund''
  refine ⟨gas', s', gas' - cost, s'', hrun, hwrapped, by omega, hrefunds, ?_, ?_⟩
  · rw [sstoreRun_cons_of_ok env hstep]
    rfl
  · rw [hrefund'', List.foldl_cons, List.foldl_nil, RefundCall.counter, UInt64.toNat_sub]
    have hlt : s'.refund.toNat < clearingRefund.toNat := by omega
    rw [Nat.mod_eq_of_lt (by omega)]
    omega

end Stores

/-! ### A run that wraps the counter under Berlin -/

/-- A database whose every slot holds `1`. -/
def onesReader : StateReader ℕ (BitVec 256) where
  readAccountData _ := some ⟨true, 0, 0, 0, 0⟩
  readAccountStorage _ _ _ := some 1
  readAccountCode _ _ _ := none
  readAccountCodeSize _ _ _ := 0
  readAccountIncarnation _ := 0

/-- Addresses are numbers, slots are their words, and `ripemd` is the address `3`. -/
def onesEnv : StateEnv ℕ (BitVec 256) :=
  ⟨fun _ => 0, 0, 3⟩

/-- The contract at address `0`, read from `onesReader` before the transaction, in the access list. -/
def onesState : IntraBlockState ℕ (BitVec 256) :=
  { IntraBlockState.new onesEnv onesReader with
    stateObjects := fun a =>
      if a = 0 then some (StateObject.newObject onesEnv 0 ⟨true, 0, 0, 0, 0⟩ ⟨true, 0, 0, 0, 0⟩) else none
    accessList := ⟨fun a => if a = 0 then some (-1) else none, []⟩ }

/-- `⌈2 ^ 64 / 15000⌉`, the clears of slots after which Berlin's refunds have passed `2 ^ 64`. -/
def berlinWrapClears : ℕ := 1229782938247304

/-- The slots `1, …, berlinWrapClears - 1`; with slot `0` they are `berlinWrapClears` slots. -/
def berlinWrapSlots : List (BitVec 256) :=
  (List.range (berlinWrapClears - 1)).map fun i => BitVec.ofNat 256 (i + 1)

theorem stores_onesState : Stores onesState 0 (fun _ => 1) (fun _ => 1) :=
  ⟨⟨_, rfl, rfl, rfl, fun _ => rfl, fun _ => rfl⟩,
    fun a idx h => by
      by_cases ha : a = 0
      · subst ha
        simp only [onesState, if_true, Option.some.injEq] at h
        exact .inl h.symm
      · simp [onesState, ha] at h,
    rfl⟩

theorem length_berlinWrapSlots : berlinWrapSlots.length = berlinWrapClears - 1 := by
  simp [berlinWrapSlots]

/-- The slots are distinct words, none of them `0`. -/
theorem nodup_berlinWrapSlots : ((0 :: berlinWrapSlots).map id).Nodup := by
  have hsmall : ∀ i ∈ List.range (berlinWrapClears - 1), (BitVec.ofNat 256 (i + 1)).toNat = i + 1 := by
    intro i hi
    rw [List.mem_range, berlinWrapClears] at hi
    rw [BitVec.toNat_ofNat, Nat.mod_eq_of_lt (by omega)]
  rw [List.map_id, List.nodup_cons]
  constructor
  · intro hmem
    obtain ⟨i, hi, heq⟩ := List.mem_map.1 hmem
    have := congrArg BitVec.toNat heq
    rw [hsmall i hi] at this
    simp at this
  · unfold List.Nodup berlinWrapSlots
    rw [List.pairwise_map]
    refine List.nodup_range.imp_of_mem (fun {i j} hi hj hne heq => hne ?_)
    have := congrArg BitVec.toNat heq
    rw [hsmall i hi, hsmall j hj] at this
    omega

/-- Under Berlin: `berlinWrapClears` clears of slots holding `1`, then slot `0` set to `2`, with the gas of
the clears and the sentry, below `MaxGasLimit`. -/
theorem sstoreRun_refund_wraps_berlin :
    Stores onesState 0 (fun _ => 1) (fun _ => 1) ∧ ((0 :: berlinWrapSlots).map id).Nodup ∧
      2 ^ 64 ≤ onesState.refund.toNat +
        (UInt64.ofNat sstoreClearsScheduleRefundEIP2200).toNat * (berlinWrapSlots.length + 1) ∧
      onesState.refund.toNat + (UInt64.ofNat sstoreClearsScheduleRefundEIP2200).toNat * (berlinWrapSlots.length + 1) <
        2 ^ 64 + (UInt64.ofNat sstoreClearsScheduleRefundEIP2200).toNat ∧
      sstoreSentryGasEIP2200 + sstoreResetGasEIP2200 * (berlinWrapSlots.length + 1) < 5000 * berlinWrapClears + 2301 ∧
      5000 * berlinWrapClears + 2301 < 2 ^ 63 ∧
      ∃ gas' s' gas'' s'',
        sstoreRun onesEnv (UInt64.ofNat sstoreClearsScheduleRefundEIP2200) id 0
            ((0 :: berlinWrapSlots).map fun l => (l, 0)) (5000 * berlinWrapClears + 2301) onesState =
          some (.ok (gas', s')) ∧
        s'.refund.toNat + 2 ^ 64 =
          onesState.refund.toNat + (UInt64.ofNat sstoreClearsScheduleRefundEIP2200).toNat * (berlinWrapSlots.length + 1) ∧
        s'.refund.toNat < (UInt64.ofNat sstoreClearsScheduleRefundEIP2200).toNat ∧
        sstoreRefunds (UInt64.ofNat sstoreClearsScheduleRefundEIP2200) 1 0 2 =
          [.subRefund (UInt64.ofNat sstoreClearsScheduleRefundEIP2200)] ∧
        sstoreRun onesEnv (UInt64.ofNat sstoreClearsScheduleRefundEIP2200) id 0 [(0, 2)] gas' s' =
          some (.ok (gas'', s'')) ∧
        s''.refund.toNat = s'.refund.toNat + 2 ^ 64 - (UInt64.ofNat sstoreClearsScheduleRefundEIP2200).toNat := by
  have hlen := length_berlinWrapSlots
  have hrefund : (UInt64.ofNat sstoreClearsScheduleRefundEIP2200).toNat = 15000 := rfl
  have hzero : onesState.refund.toNat = 0 := rfl
  have hwrap : 2 ^ 64 ≤ onesState.refund.toNat +
      (UInt64.ofNat sstoreClearsScheduleRefundEIP2200).toNat * (berlinWrapSlots.length + 1) := by
    rw [hlen, hrefund, hzero, berlinWrapClears]
    decide
  have hfirst : onesState.refund.toNat + (UInt64.ofNat sstoreClearsScheduleRefundEIP2200).toNat *
      (berlinWrapSlots.length + 1) < 2 ^ 64 + (UInt64.ofNat sstoreClearsScheduleRefundEIP2200).toNat := by
    rw [hlen, hrefund, hzero, berlinWrapClears]
    decide
  have hgas : sstoreSentryGasEIP2200 + sstoreResetGasEIP2200 * (berlinWrapSlots.length + 1) <
      5000 * berlinWrapClears + 2301 := by
    rw [hlen, berlinWrapClears, sstoreSentryGasEIP2200, sstoreResetGasEIP2200]
    decide
  exact ⟨stores_onesState, nodup_berlinWrapSlots, hwrap, hfirst, hgas, by rw [berlinWrapClears]; decide,
    sstoreRun_refund_wraps onesEnv stores_onesState _ id 0 berlinWrapSlots nodup_berlinWrapSlots
      (fun _ _ => ⟨rfl, by decide⟩) hwrap hfirst 2 (by decide) (by decide) _ hgas⟩

end AmazeChain.Vm
