import AmazeChain.State.Journal

/-!
# What the account operations touch

The accounts of an `IntraBlockState` live in `stateObjects`, `nilAccounts` and `balanceInc`; the refund
counter, the logs and the access list are kept beside them and are changed only by their own operations.
`AccountStep s s'` says that `s'` is `s` after work on the accounts alone: only account entries appended to
the journal, and the refund counter, the logs and the access list (`journalView`) unchanged.  Every lookup,
creation and write of an object is such a step, and so is every call on an account and every revert of an
account entry.

The spec lemmas of `getStateObject` for a live and for an unread account, and of `setStateObject` and
`withIncrease` for a pending increase, are the ones the trace of a lazy increase is evaluated with.
-/

namespace AmazeChain.State

variable {Addr Hash : Type}

/-- The refund counter, the logs with their count, and the access list. -/
structure JournalView (Addr Hash : Type) where
  refund : UInt64
  logs : Hash → List (Log Addr Hash)
  logSize : UInt64
  accessList : AccessList Addr Hash

/-- The entries that journal a change of an account, as opposed to one of the journal view. -/
def JournalEntry.isAccountEntry : JournalEntry Addr Hash → Bool
  | .refundChange _ | .addLogChange _ | .accessListAddAccountChange _ | .accessListAddSlotChange _ _ => false
  | _ => true

namespace IntraBlockState

set_option linter.unusedSectionVars false

def journalView (s : IntraBlockState Addr Hash) : JournalView Addr Hash :=
  ⟨s.refund, s.logs, s.logSize, s.accessList⟩

/-- `s'` is `s` after work on the accounts alone. -/
structure AccountStep (s s' : IntraBlockState Addr Hash) : Prop where
  journal : ∃ F, s'.journal = s.journal ++ F ∧ ∀ e ∈ F, e.isAccountEntry = true
  view : s'.journalView = s.journalView
  validRevisions : s'.validRevisions = s.validRevisions

namespace AccountStep

theorem refl (s : IntraBlockState Addr Hash) : AccountStep s s :=
  ⟨⟨[], by simp, by simp⟩, rfl, rfl⟩

theorem trans {s₁ s₂ s₃ : IntraBlockState Addr Hash} (h₁ : AccountStep s₁ s₂) (h₂ : AccountStep s₂ s₃) :
    AccountStep s₁ s₃ := by
  obtain ⟨F₁, hj₁, hF₁⟩ := h₁.journal
  obtain ⟨F₂, hj₂, hF₂⟩ := h₂.journal
  refine ⟨⟨F₁ ++ F₂, by rw [hj₂, hj₁, List.append_assoc], ?_⟩, h₂.view.trans h₁.view,
    h₂.validRevisions.trans h₁.validRevisions⟩
  intro e he
  rcases List.mem_append.1 he with he | he
  · exact hF₁ e he
  · exact hF₂ e he

/-- A change of the account maps, with the journal as it was. -/
theorem of_accounts {s s' : IntraBlockState Addr Hash} (hj : s'.journal = s.journal)
    (hv : s'.journalView = s.journalView) (hr : s'.validRevisions = s.validRevisions) : AccountStep s s' :=
  ⟨⟨[], by simp [hj], by simp⟩, hv, hr⟩

theorem append [DecidableEq Addr] (s : IntraBlockState Addr Hash) {e : JournalEntry Addr Hash}
    (he : e.isAccountEntry = true) :
    AccountStep s (s.append e) :=
  ⟨⟨[e], rfl, by simpa using he⟩, rfl, rfl⟩

end AccountStep

variable [DecidableEq Addr] [DecidableEq Hash] (env : StateEnv Addr Hash)

/-! ### Spec lemmas of the object lifecycle -/

theorem getStateObject_of_live {s : IntraBlockState Addr Hash} {addr : Addr} {obj : StateObject Addr Hash}
    (h : s.stateObjects addr = some obj) : s.getStateObject env addr = (some obj, s) := by
  simp [getStateObject, h]

theorem getStateObject_of_read {s : IntraBlockState Addr Hash} {addr : Addr} {account : StateAccount Hash}
    (hlive : s.stateObjects addr = none) (hnil : s.nilAccounts addr = false)
    (hread : s.stateReader.readAccountData addr = some account) :
    s.getStateObject env addr =
      (some (s.withIncrease addr (StateObject.newObject env addr account account)),
        s.setStateObject addr (StateObject.newObject env addr account account)) := by
  simp [getStateObject, hlive, hnil, hread]

theorem withIncrease_of_pending {s : IntraBlockState Addr Hash} {addr : Addr} {bi : BalanceIncrease}
    (h : s.balanceInc addr = some bi) (ht : bi.transferred = false) (object : StateObject Addr Hash) :
    s.withIncrease addr object =
      { object with data := { object.data with balance := object.data.balance + bi.increase } } := by
  simp [withIncrease, h, ht]

theorem setStateObject_of_pending {s : IntraBlockState Addr Hash} {addr : Addr} {bi : BalanceIncrease}
    (h : s.balanceInc addr = some bi) (ht : bi.transferred = false) (object : StateObject Addr Hash) :
    s.setStateObject addr object =
      { (s.append (.balanceIncreaseTransfer addr)) with
        balanceInc := Function.update s.balanceInc addr (some { bi with transferred := true }),
        stateObjects := Function.update s.stateObjects addr (some (s.withIncrease addr object)) } := by
  simp [setStateObject, h, ht]

theorem withIncrease_of_none {s : IntraBlockState Addr Hash} {addr : Addr} (h : s.balanceInc addr = none)
    (object : StateObject Addr Hash) : s.withIncrease addr object = object := by
  simp [withIncrease, h]

theorem setStateObject_of_none {s : IntraBlockState Addr Hash} {addr : Addr} (h : s.balanceInc addr = none)
    (object : StateObject Addr Hash) : s.setStateObject addr object = s.writeObject addr object := by
  simp [setStateObject, h]

theorem getOrNewStateObject_of_live {s : IntraBlockState Addr Hash} {addr : Addr} {obj : StateObject Addr Hash}
    (h : s.stateObjects addr = some obj) (hd : obj.deleted = false) :
    s.getOrNewStateObject env addr = (obj, s) := by
  simp [getOrNewStateObject, getStateObject_of_live env h, hd]

/-- `GetOrNewStateObject` of an account the database has, not yet read and with no increase waiting. -/
theorem getOrNewStateObject_of_read {s : IntraBlockState Addr Hash} {addr : Addr} {account : StateAccount Hash}
    (hlive : s.stateObjects addr = none) (hnil : s.nilAccounts addr = false) (hinc : s.balanceInc addr = none)
    (hread : s.stateReader.readAccountData addr = some account) :
    s.getOrNewStateObject env addr =
      (StateObject.newObject env addr account account, s.writeObject addr (StateObject.newObject env addr account account)) := by
  simp [getOrNewStateObject, getStateObject_of_read env hlive hnil hread, withIncrease_of_none hinc,
    setStateObject_of_none hinc]

/-- `SetState` of a key the object has not read yet, to a value other than the committed one: the committed
value is read and journaled, and the new one becomes dirty. -/
theorem objectSetState_of_unread {s : IntraBlockState Addr Hash} {addr : Addr} {so : StateObject Addr Hash}
    {key : Hash} {value : BitVec 256} (hfake : so.fakeStorage = none) (hdirty : so.dirtyStorage key = none)
    (horigin : so.originStorage key = none) (hcreated : so.created = false)
    (hv : value ≠ (s.stateReader.readAccountStorage so.address so.data.incarnation key).getD 0) :
    s.objectSetState addr so key value =
      let committed := (s.stateReader.readAccountStorage so.address so.data.incarnation key).getD 0
      (s.append (.storageChange so.address key committed)).writeObject addr
        ({ so with
          originStorage := Function.update so.originStorage key (some committed)
          blockOriginStorage := Function.update so.blockOriginStorage key (some committed) }.setState key value) := by
  simp only [objectSetState, StateObject.getState, StateObject.getCommittedState, hfake, hdirty, horigin, hcreated,
    Bool.false_eq_true, ↓reduceIte, Ne.symm hv]

/-- `SetState` of an account the database has, not yet read and with no increase waiting, to a value other
than the committed one: the account is read, the committed value journaled and the new one made dirty. -/
theorem setState_of_read {s : IntraBlockState Addr Hash} {addr : Addr} {account : StateAccount Hash}
    (hlive : s.stateObjects addr = none) (hnil : s.nilAccounts addr = false) (hinc : s.balanceInc addr = none)
    (hread : s.stateReader.readAccountData addr = some account) (key : Hash) {value : BitVec 256}
    (hv : value ≠ (s.stateReader.readAccountStorage addr account.incarnation key).getD 0) :
    s.setState env addr key value =
      let obj := StateObject.newObject env addr account account
      let committed := (s.stateReader.readAccountStorage addr account.incarnation key).getD 0
      ((s.writeObject addr obj).append (.storageChange addr key committed)).writeObject addr
        ({ obj with
          originStorage := Function.update obj.originStorage key (some committed)
          blockOriginStorage := Function.update obj.blockOriginStorage key (some committed) }.setState key value) := by
  rw [setState, getOrNewStateObject_of_read env hlive hnil hinc hread]
  dsimp only
  rw [objectSetState_of_unread rfl rfl rfl rfl (by rw [StateObject.newObject_incarnation]; exact hv),
    StateObject.newObject_incarnation]
  rfl

/-- `SetNonce` of a live account that is not deleted. -/
theorem setNonce_of_live {s : IntraBlockState Addr Hash} {addr : Addr} {obj : StateObject Addr Hash}
    (h : s.stateObjects addr = some obj) (hd : obj.deleted = false) (nonce : UInt64) :
    s.setNonce env addr nonce = (s.append (.nonceChange obj.address obj.data.nonce)).writeObject addr (obj.setNonce nonce) := by
  simp [setNonce, getOrNewStateObject_of_live env h hd, objectSetNonce]

/-- `CreateAccount` of a contract at an address the database has an account for, not yet read and with no
increase waiting: the account read is replaced by a new one that keeps its balance and takes the
incarnation after the one the database records for the address. -/
theorem createAccount_of_read {s : IntraBlockState Addr Hash} {addr : Addr} {account : StateAccount Hash}
    (hlive : s.stateObjects addr = none) (hnil : s.nilAccounts addr = false) (hinc : s.balanceInc addr = none)
    (hread : s.stateReader.readAccountData addr = some account) :
    s.createAccount env addr true =
      let previous := StateObject.newObject env addr account account
      let newobj := (StateObject.newObject env addr (StateAccount.zero env.zeroHash) account).setNonce 0
      (((s.writeObject addr previous).append (.resetObjectChange addr previous)).writeObject addr newobj).writeObject addr
        { newobj with
          created := true
          data := { newobj.data with
            balance := previous.data.balance, initialised := true,
            incarnation := s.stateReader.readAccountIncarnation addr + 1 } } := by
  have hsd : (StateObject.newObject env addr account account).selfdestructed = false := rfl
  -- the reset is journaled on a state whose increases are those of `s`
  have hinc' : ((s.writeObject addr (StateObject.newObject env addr account account)).append
      (.resetObjectChange addr (StateObject.newObject env addr account account))).balanceInc addr = none := hinc
  simp only [createAccount, getStateObject_of_read env hlive hnil hread, withIncrease_of_none hinc,
    setStateObject_of_none hinc, hsd, createObject, withIncrease_of_none hinc', setStateObject_of_none hinc']
  simp only [↓reduceIte, Bool.false_eq_true, writeObject_stateReader]
  rfl

/-- `AddBalance` of an account not yet read, by an amount that is not zero. -/
theorem addBalance_of_unread {s : IntraBlockState Addr Hash} {addr : Addr} {amount : BitVec 256}
    (hlive : s.stateObjects addr = none) (hamount : amount ≠ 0) :
    s.addBalance env addr amount =
      let bi := (s.balanceInc addr).getD ⟨0, false, 0⟩
      { s.append (.balanceIncrease addr amount) with
        balanceInc := Function.update s.balanceInc addr
          (some { bi with increase := bi.increase + amount, count := bi.count + 1 }) } := by
  have hzero : amount ≠ 0#256 := hamount
  simp [addBalance, hlive, hzero]

theorem getBalance_of_getStateObject {s s' : IntraBlockState Addr Hash} {addr : Addr}
    {so : StateObject Addr Hash} (h : s.getStateObject env addr = (some so, s')) :
    s.getBalance env addr = (if so.deleted then 0 else so.data.balance, s') := by
  simp [getBalance, h]

/-! ### The account operations are account steps -/

theorem accountStep_writeObject (s : IntraBlockState Addr Hash) (addr : Addr) (object : StateObject Addr Hash) :
    AccountStep s (s.writeObject addr object) :=
  .of_accounts rfl rfl rfl

theorem accountStep_setStateObject (s : IntraBlockState Addr Hash) (addr : Addr)
    (object : StateObject Addr Hash) : AccountStep s (s.setStateObject addr object) := by
  unfold setStateObject
  split
  · split
    · exact ⟨⟨[.balanceIncreaseTransfer addr], rfl, by simp [JournalEntry.isAccountEntry]⟩, rfl, rfl⟩
    · exact accountStep_writeObject s addr object
  · exact accountStep_writeObject s addr object

theorem accountStep_createObject (s : IntraBlockState Addr Hash) (addr : Addr)
    (previous : Option (StateObject Addr Hash)) : AccountStep s (s.createObject env addr previous).2 := by
  unfold createObject
  -- the creation or the reset is journaled, then the object is stored
  cases previous with
  | none =>
    exact (AccountStep.append s rfl).trans (accountStep_setStateObject _ addr _)
  | some previous =>
    exact (AccountStep.append s rfl).trans (accountStep_setStateObject _ addr _)

theorem accountStep_createIfIncreased (s : IntraBlockState Addr Hash) (addr : Addr) :
    AccountStep s (s.createIfIncreased env addr).2 := by
  unfold createIfIncreased
  split
  · split
    · exact accountStep_createObject env s addr none
    · exact .refl s
  · exact .refl s

theorem accountStep_getStateObject (s : IntraBlockState Addr Hash) (addr : Addr) :
    AccountStep s (s.getStateObject env addr).2 := by
  unfold getStateObject
  split
  · exact .refl s
  · split
    · exact accountStep_createIfIncreased env s addr
    · split
      · -- the address is remembered as having no account
        refine AccountStep.trans ?_ (accountStep_createIfIncreased env _ addr)
        exact .of_accounts rfl rfl rfl
      · exact accountStep_setStateObject s addr _

theorem accountStep_getOrNewStateObject (s : IntraBlockState Addr Hash) (addr : Addr) :
    AccountStep s (s.getOrNewStateObject env addr).2 := by
  unfold getOrNewStateObject
  have hget := accountStep_getStateObject env s addr
  split
  · rename_i obj s' hobj
    rw [hobj] at hget
    split
    · exact hget.trans (accountStep_createObject env s' addr _)
    · exact hget
  · rename_i s' hobj
    rw [hobj] at hget
    exact hget.trans (accountStep_createObject env s' addr _)

theorem accountStep_objectSetBalance (s : IntraBlockState Addr Hash) (addr : Addr) (so : StateObject Addr Hash)
    (amount : BitVec 256) : AccountStep s (s.objectSetBalance addr so amount) :=
  (AccountStep.append s rfl).trans (accountStep_writeObject _ addr _)

/-- A touch journals the account, and counts `ripemd` once more without an entry. -/
theorem accountStep_touch (s : IntraBlockState Addr Hash) (so : StateObject Addr Hash) :
    AccountStep s (s.touch env so) := by
  unfold touch
  split_ifs
  · exact (AccountStep.append s rfl).trans (.of_accounts rfl rfl rfl)
  · exact AccountStep.append s rfl

theorem accountStep_objectAddBalance (s : IntraBlockState Addr Hash) (addr : Addr) (so : StateObject Addr Hash)
    (amount : BitVec 256) : AccountStep s (s.objectAddBalance env addr so amount) := by
  unfold objectAddBalance
  split_ifs
  · exact accountStep_touch env s so
  · exact .refl s
  · exact accountStep_objectSetBalance s addr so _

theorem accountStep_objectSubBalance (s : IntraBlockState Addr Hash) (addr : Addr) (so : StateObject Addr Hash)
    (amount : BitVec 256) : AccountStep s (s.objectSubBalance addr so amount) := by
  unfold objectSubBalance
  split_ifs
  · exact .refl s
  · exact accountStep_objectSetBalance s addr so _

theorem accountStep_objectSetNonce (s : IntraBlockState Addr Hash) (addr : Addr) (so : StateObject Addr Hash)
    (nonce : UInt64) : AccountStep s (s.objectSetNonce addr so nonce) :=
  (AccountStep.append s rfl).trans (accountStep_writeObject _ addr _)

theorem accountStep_objectSetCode (s : IntraBlockState Addr Hash) (addr : Addr) (so : StateObject Addr Hash)
    (codeHash : Hash) (code : List UInt8) : AccountStep s (s.objectSetCode env addr so codeHash code) :=
  (AccountStep.append s rfl).trans (accountStep_writeObject _ addr _)

theorem accountStep_objectSetState (s : IntraBlockState Addr Hash) (addr : Addr) (so : StateObject Addr Hash)
    (key : Hash) (value : BitVec 256) : AccountStep s (s.objectSetState addr so key value) := by
  unfold objectSetState
  split
  · exact (AccountStep.append s rfl).trans (accountStep_writeObject _ addr _)
  · -- the read of the value it replaces only fills the object's cache
    generalize StateObject.getState s.stateReader so key = r
    obtain ⟨prev, so'⟩ := r
    dsimp only
    split_ifs
    · exact accountStep_writeObject s addr _
    · exact (AccountStep.append s rfl).trans (accountStep_writeObject _ addr _)

/-! ### The calls on accounts are account steps -/

/-- What is reached from the state after a lookup by an account step is reached from the state before. -/
theorem accountStep_of_lookup (s : IntraBlockState Addr Hash) (addr : Addr) {t : IntraBlockState Addr Hash}
    (h : ∀ so s', s.getStateObject env addr = (so, s') → AccountStep s' t) : AccountStep s t := by
  rcases hget : s.getStateObject env addr with ⟨so, s'⟩
  have hstep := accountStep_getStateObject env s addr
  rw [hget] at hstep
  exact hstep.trans (h so s' hget)

/-- The same for a lookup that makes a missing account. -/
theorem accountStep_of_getOrNew (s : IntraBlockState Addr Hash) (addr : Addr) {t : IntraBlockState Addr Hash}
    (h : ∀ so s', s.getOrNewStateObject env addr = (so, s') → AccountStep s' t) : AccountStep s t := by
  rcases hget : s.getOrNewStateObject env addr with ⟨so, s'⟩
  have hstep := accountStep_getOrNewStateObject env s addr
  rw [hget] at hstep
  exact hstep.trans (h so s' hget)

theorem accountStep_addBalance (s : IntraBlockState Addr Hash) (addr : Addr) (amount : BitVec 256) :
    AccountStep s (s.addBalance env addr amount) := by
  unfold addBalance
  dsimp only
  split_ifs
  · -- the increase waits in `balanceInc`
    exact ⟨⟨[.balanceIncrease addr amount], rfl, by simp [JournalEntry.isAccountEntry]⟩, rfl, rfl⟩
  · refine accountStep_of_getOrNew env s addr fun so s' hso => ?_
    rw [hso]
    exact accountStep_objectAddBalance env s' addr so amount

theorem accountStep_createAccount (s : IntraBlockState Addr Hash) (addr : Addr) (contractCreation : Bool) :
    AccountStep s (s.createAccount env addr contractCreation) := by
  refine accountStep_of_lookup env s addr fun previous s' hprev => ?_
  unfold createAccount
  rw [hprev]
  dsimp only
  rcases hnew : s'.createObject env addr previous with ⟨newObj, s''⟩
  have hcreate := accountStep_createObject env s' addr previous
  rw [hnew] at hcreate
  exact hcreate.trans (accountStep_writeObject _ addr _)

theorem accountStep_selfdestruct (s : IntraBlockState Addr Hash) (addr : Addr) :
    AccountStep s (s.selfdestruct env addr).2 := by
  refine accountStep_of_lookup env s addr fun so s' hso => ?_
  unfold selfdestruct
  rw [hso]
  rcases so with _ | so
  · exact .refl s'
  · dsimp only
    split_ifs
    · exact .refl s'
    · exact (AccountStep.append s' rfl).trans (accountStep_writeObject _ addr _)

/-- The calls on accounts, as opposed to the refund counter, the logs and the access list. -/
def Call.isAccountCall : Call Addr Hash → Bool
  | .addRefund _ | .subRefund _ | .addLog _ | .addAddressToAccessList _ | .addSlotToAccessList _ _ => false
  | _ => true

theorem accountStep_call {s s' : IntraBlockState Addr Hash} {c : Call Addr Hash} (hc : c.isAccountCall = true)
    (h : s.call env c = some s') : AccountStep s s' := by
  cases c with
  | addBalance addr amount => cases h; exact accountStep_addBalance env s addr amount
  | subBalance addr amount =>
    cases h
    refine accountStep_of_getOrNew env s addr fun so s' hso => ?_
    simp only [subBalance, hso]
    exact accountStep_objectSubBalance s' addr so amount
  | setBalance addr amount =>
    cases h
    refine accountStep_of_getOrNew env s addr fun so s' hso => ?_
    simp only [setBalance, hso]
    exact accountStep_objectSetBalance s' addr so amount
  | setNonce addr nonce =>
    cases h
    refine accountStep_of_getOrNew env s addr fun so s' hso => ?_
    simp only [setNonce, hso]
    exact accountStep_objectSetNonce s' addr so nonce
  | setCode addr code =>
    cases h
    refine accountStep_of_getOrNew env s addr fun so s' hso => ?_
    simp only [setCode, hso]
    exact accountStep_objectSetCode env s' addr so _ code
  | setState addr key value =>
    cases h
    refine accountStep_of_getOrNew env s addr fun so s' hso => ?_
    simp only [setState, hso]
    exact accountStep_objectSetState s' addr so key value
  | createAccount addr contractCreation => cases h; exact accountStep_createAccount env s addr contractCreation
  | suicide addr => cases h; exact accountStep_selfdestruct env s addr
  | selfdestruct addr => cases h; exact accountStep_selfdestruct env s addr
  -- a read keeps the state of its lookup, or writes back the object whose cache it filled
  | getBalance addr | getNonce addr | exist addr | empty addr =>
    cases h
    refine accountStep_of_lookup env s addr fun so s' hso => ?_
    rcases so with _ | so <;> simp only [getBalance, getNonce, exist, empty, hso] <;> exact .refl s'
  | getCode addr | getState addr _ =>
    cases h
    refine accountStep_of_lookup env s addr fun so s' hso => ?_
    rcases so with _ | so
    · simp only [getCode, getState, hso]
      exact .refl s'
    · simp only [getCode, getState, hso]
      split_ifs
      · exact .refl s'
      · exact accountStep_writeObject s' addr _
  | addRefund | subRefund | addLog | addAddressToAccessList | addSlotToAccessList => cases hc

/-! ### The reverts of account entries are account steps -/

theorem accountStep_revertObject {s s' : IntraBlockState Addr Hash} {account : Addr}
    {f : StateObject Addr Hash → StateObject Addr Hash} (h : s.revertObject env account f = some s') :
    AccountStep s s' := by
  refine accountStep_of_lookup env s account fun obj t hobj => ?_
  simp only [revertObject, hobj] at h
  rcases obj with _ | obj
  · cases h
  · cases h
    exact accountStep_writeObject t account _

theorem accountStep_revert {s s' : IntraBlockState Addr Hash} {e : JournalEntry Addr Hash}
    (he : e.isAccountEntry = true) (h : e.revert env s = some s') : AccountStep s s' := by
  cases e with
  | createObjectChange account => cases h; exact .of_accounts rfl rfl rfl
  | resetObjectChange account prev => cases h; exact accountStep_setStateObject s account prev
  | selfdestructChange account prev prevbalance =>
    refine accountStep_of_lookup env s account fun obj t hobj => ?_
    simp only [JournalEntry.revert, hobj] at h
    rcases obj with _ | obj
    · cases h
      exact .refl _
    · cases h
      exact accountStep_writeObject t account _
  | balanceChange account prev => exact accountStep_revertObject env h
  | balanceIncrease account increase =>
    simp only [JournalEntry.revert] at h
    split at h
    · cases h
      exact .of_accounts rfl rfl rfl
    · cases h
      exact .refl s
  | balanceIncreaseTransfer account => cases h; exact .of_accounts rfl rfl rfl
  | nonceChange account prev => exact accountStep_revertObject env h
  | storageChange account key prevalue => exact accountStep_revertObject env h
  | fakeStorageChange account key prevalue =>
    refine accountStep_of_lookup env s account fun obj t hobj => ?_
    simp only [JournalEntry.revert, hobj] at h
    rcases obj with _ | obj
    · cases h
    · rcases hfake : obj.fakeStorage with _ | fake
      · simp only [hfake] at h
        cases h
      · simp only [hfake, Option.some.injEq] at h
        subst h
        exact accountStep_writeObject t account _
  | codeChange account prevcode prevhash => exact accountStep_revertObject env h
  | touchChange account => cases h; exact .refl s
  | refundChange | addLogChange | accessListAddAccountChange | accessListAddSlotChange => cases he

end IntraBlockState

end AmazeChain.State
