import AmazeChain.State.IntraBlockState
import AmazeChain.Lib.ListFold

/-!
# Finalising a transaction and committing a block

At the end of a transaction `FinalizeTx` (`modules/state/intra_block_state.go`) loads every account that has a
balance increase still waiting, writes every account the journal counts as dirty to a `StateWriter`
(`updateAccount`) and records it in `stateObjectsDirty`; `SoftFinalise` only records them.  At the end of a
block `CommitBlock` loads the waiting increases again and `MakeWriteSet` writes every live object, dirty or
not: a self-destructed account is deleted, an empty dirty one is removed under EIP-161, and a dirty one
that stays is written with its code and its storage (`updateTrie`).  Each of them clears the journal.

The loops read the dirty accounts off the journal's entries (`dirties`).  Along every run the counter
`journal.dirties` holds exactly these addresses, and `ripemd` while it has the extra count `touch` gives it,
which no revert takes back (`DirtiesInv.isSome_journalDirties` in `State.Dirties`).  The loops here leave that
extra count out.  That differs from the source only for a `ripemd` whose touch was reverted while it stays
live: the source's loops then write it and these do not.  When it is not live the source skips it too.

`StateWriter` is an interface of the source; here it is a record of functions over the state `ω` of the
writer, and a writer never fails.  The loops over the address maps visit the addresses in the order of the
list `order` and the dirty storage of an object in the order `keys addr`, skipping the entries the map does
not hold; where the order is Go's, every theorem holds for every order.
-/

set_option linter.unusedSectionVars false

namespace AmazeChain.State

variable {Addr Hash ω : Type}

/-- `StateWriter` (`modules/state/database.go`): where finalised accounts go. -/
structure StateWriter (Addr Hash ω : Type) where
  updateAccountData : ω → Addr → StateAccount Hash → StateAccount Hash → ω
  updateAccountCode : ω → Addr → UInt16 → Hash → List UInt8 → ω
  deleteAccount : ω → Addr → StateAccount Hash → ω
  writeAccountStorage : ω → Addr → UInt16 → Hash → BitVec 256 → BitVec 256 → ω
  createContract : ω → Addr → ω

/-- `NewNoopWriter`, the writer `FinalizeTx` gets during block execution. -/
def noopWriter : StateWriter Addr Hash Unit where
  updateAccountData _ _ _ _ := ()
  updateAccountCode _ _ _ _ _ := ()
  deleteAccount _ _ _ := ()
  writeAccountStorage _ _ _ _ _ _ := ()
  createContract _ _ := ()

/-- The flags of `params.Rules` that `updateAccount` reads. -/
structure Rules where
  isSpuriousDragon : Bool
  isAura : Bool
  deriving DecidableEq, Repr

namespace StateObject

variable [DecidableEq Addr] [DecidableEq Hash] (env : StateEnv Addr Hash) (w : StateWriter Addr Hash ω)

/-- One key of the loop of `updateTrie`: a dirty value is written against the one the block started with,
and becomes the committed one. -/
def writeStorage (t : StateObject Addr Hash × ω) (key : Hash) : StateObject Addr Hash × ω :=
  match t.1.dirtyStorage key with
  | some value =>
    ({ t.1 with originStorage := Function.update t.1.originStorage key (some value) },
      w.writeAccountStorage t.2 t.1.address t.1.data.incarnation key ((t.1.blockOriginStorage key).getD 0) value)
  | none => t

/-- `updateTrie`: write the dirty storage. -/
def updateTrie (so : StateObject Addr Hash) (o : ω) (keys : List Hash) : StateObject Addr Hash × ω :=
  keys.foldl (writeStorage w) (so, o)

/-- `updateAccount`: delete a self-destructed account and an empty dirty one (EIP-161, but never the system
account under Aura); write a dirty account that stays, with its new code and its storage. -/
def updateAccount (rules : Rules) (systemAddress addr : Addr) (so : StateObject Addr Hash) (isDirty : Bool)
    (o : ω) (keys : List Hash) : StateObject Addr Hash × ω :=
  let emptyRemoval := rules.isSpuriousDragon && so.empty env && (!rules.isAura || decide (addr ≠ systemAddress))
  let (so, o) :=
    if so.selfdestructed || (isDirty && emptyRemoval) then ({ so with deleted := true }, w.deleteAccount o addr so.original)
    else (so, o)
  if isDirty && (so.created || !so.selfdestructed) && !emptyRemoval then
    let so := { so with deleted := false }
    let o := match so.code with
      | some code => if so.dirtyCode then w.updateAccountCode o addr so.data.incarnation so.data.codeHash code else o
      | none => o
    let o := if so.created then w.createContract o addr else o
    let (so, o) := so.updateTrie w o keys
    (so, w.updateAccountData o addr so.original so.data)
  else (so, o)

/-- `updateTrie` changes only `originStorage`. -/
theorem updateTrie_fst (so : StateObject Addr Hash) (o : ω) (keys : List Hash) :
    (so.updateTrie w o keys).1 = { so with originStorage := (so.updateTrie w o keys).1.originStorage } := by
  unfold updateTrie
  -- the loop keeps the shape `{ so with originStorage := _ }` of its first component
  suffices ∀ (l : List Hash) (t : StateObject Addr Hash × ω), t.1 = { so with originStorage := t.1.originStorage } →
      (l.foldl (writeStorage w) t).1 = { so with originStorage := (l.foldl (writeStorage w) t).1.originStorage } from
    this keys (so, o) rfl
  intro l
  induction l with
  | nil => intro t ht; exact ht
  | cons key l ih =>
    rintro ⟨t, o'⟩ ht
    rw [List.foldl_cons]
    apply ih
    unfold writeStorage
    dsimp only at ht ⊢
    cases t.dirtyStorage key with
    | none => exact ht
    | some value => rw [ht]

/-- An object with no dirty storage writes nothing. -/
theorem updateTrie_of_clean {so : StateObject Addr Hash} (hclean : ∀ key, so.dirtyStorage key = none) (o : ω)
    (keys : List Hash) : so.updateTrie w o keys = (so, o) := by
  unfold updateTrie
  exact ListFold.foldl_eq_self (fun t => t = (so, o)) (fun t key _ ht => by subst ht; simp [writeStorage, hclean key]) rfl

@[simp] theorem updateTrie_data (so : StateObject Addr Hash) (o : ω) (keys : List Hash) :
    (so.updateTrie w o keys).1.data = so.data := by rw [updateTrie_fst]

@[simp] theorem updateTrie_original (so : StateObject Addr Hash) (o : ω) (keys : List Hash) :
    (so.updateTrie w o keys).1.original = so.original := by rw [updateTrie_fst]

@[simp] theorem updateTrie_dirtyStorage (so : StateObject Addr Hash) (o : ω) (keys : List Hash) :
    (so.updateTrie w o keys).1.dirtyStorage = so.dirtyStorage := by rw [updateTrie_fst]

@[simp] theorem updateTrie_fakeStorage (so : StateObject Addr Hash) (o : ω) (keys : List Hash) :
    (so.updateTrie w o keys).1.fakeStorage = so.fakeStorage := by rw [updateTrie_fst]

@[simp] theorem updateTrie_deleted (so : StateObject Addr Hash) (o : ω) (keys : List Hash) :
    (so.updateTrie w o keys).1.deleted = so.deleted := by rw [updateTrie_fst]

@[simp] theorem updateTrie_selfdestructed (so : StateObject Addr Hash) (o : ω) (keys : List Hash) :
    (so.updateTrie w o keys).1.selfdestructed = so.selfdestructed := by rw [updateTrie_fst]

@[simp] theorem updateTrie_created (so : StateObject Addr Hash) (o : ω) (keys : List Hash) :
    (so.updateTrie w o keys).1.created = so.created := by rw [updateTrie_fst]

@[simp] theorem updateTrie_code (so : StateObject Addr Hash) (o : ω) (keys : List Hash) :
    (so.updateTrie w o keys).1.code = so.code := by rw [updateTrie_fst]

@[simp] theorem updateTrie_address (so : StateObject Addr Hash) (o : ω) (keys : List Hash) :
    (so.updateTrie w o keys).1.address = so.address := by rw [updateTrie_fst]

variable (rules : Rules) (systemAddress addr : Addr)

/-- An account that is not dirty and not self-destructed is left as it is. -/
theorem updateAccount_of_clean {so : StateObject Addr Hash} (hsd : so.selfdestructed = false) (o : ω)
    (keys : List Hash) : so.updateAccount env w rules systemAddress addr false o keys = (so, o) := by
  simp [updateAccount, hsd]

/-- `updateAccount` keeps the object at its address. -/
@[simp] theorem updateAccount_address (so : StateObject Addr Hash) (isDirty : Bool) (o : ω) (keys : List Hash) :
    (so.updateAccount env w rules systemAddress addr isDirty o keys).1.address = so.address := by
  unfold updateAccount
  dsimp only
  split_ifs <;> simp

/-- A dirty account that is neither self-destructed nor empty is written: its new code, its creation, its
storage and its data, and it is no longer deleted. -/
theorem updateAccount_of_kept {so : StateObject Addr Hash} (hsd : so.selfdestructed = false)
    (he : so.empty env = false) (o : ω) (keys : List Hash) :
    so.updateAccount env w rules systemAddress addr true o keys =
      let o := match so.code with
        | some code => if so.dirtyCode then w.updateAccountCode o addr so.data.incarnation so.data.codeHash code else o
        | none => o
      let o := if so.created then w.createContract o addr else o
      (({ so with deleted := false }.updateTrie w o keys).1,
        w.updateAccountData ({ so with deleted := false }.updateTrie w o keys).2 addr so.original so.data) := by
  simp [updateAccount, hsd, he]

/-- A kept dirty account comes out of `updateAccount` as it went in, undeleted and with the committed
storage that `updateTrie` wrote. -/
theorem updateAccount_of_kept_fst {so : StateObject Addr Hash} (hsd : so.selfdestructed = false)
    (he : so.empty env = false) (o : ω) (keys : List Hash) :
    ∃ origin, (so.updateAccount env w rules systemAddress addr true o keys).1 =
      { so with deleted := false, originStorage := origin } := by
  rw [updateAccount_of_kept env w rules systemAddress addr hsd he]
  exact ⟨_, updateTrie_fst w _ _ _⟩

/-- A kept dirty account with no dirty storage and no loaded code: only its creation and its data are
written. -/
theorem updateAccount_of_kept_clean {so : StateObject Addr Hash} (hsd : so.selfdestructed = false)
    (he : so.empty env = false) (hclean : ∀ key, so.dirtyStorage key = none) (hcode : so.code = none) (o : ω)
    (keys : List Hash) :
    so.updateAccount env w rules systemAddress addr true o keys =
      ({ so with deleted := false },
        w.updateAccountData (if so.created then w.createContract o addr else o) addr so.original so.data) := by
  rw [updateAccount_of_kept env w rules systemAddress addr hsd he]
  dsimp only
  rw [updateTrie_of_clean w
    (show ∀ key, ({ so with deleted := false } : StateObject Addr Hash).dirtyStorage key = none from hclean)]
  simp only [hcode]

end StateObject

namespace IntraBlockState

variable [DecidableEq Addr] [DecidableEq Hash] (env : StateEnv Addr Hash) (w : StateWriter Addr Hash ω)

/-- The addresses an entry of the journal counts: the keys of `journal.dirties` but for the extra count of
`ripemd`. -/
def dirties (s : IntraBlockState Addr Hash) (addr : Addr) : Bool :=
  s.journal.any fun e => decide (e.dirtied = some addr)

/-- `clearJournalAndRefund`: a new journal, with no counts. -/
def clearJournalAndRefund (s : IntraBlockState Addr Hash) : IntraBlockState Addr Hash :=
  { s with journal := [], journalDirties := fun _ => none, validRevisions := [], refund := 0 }

/-- The loop `FinalizeTx` and `CommitBlock` start with: load every account whose increase is still waiting,
which moves the increase into its object. -/
def transferIncreases (s : IntraBlockState Addr Hash) (order : List Addr) : IntraBlockState Addr Hash :=
  order.foldl (fun s addr =>
    match s.balanceInc addr with
    | some bi => if !bi.transferred then (s.getStateObject env addr).2 else s
    | none => s) s

/-- The step of the loop of `FinalizeTx` over the dirty accounts: write the account and mark it dirty for the
block; the ripemd case of an address counted but not live is skipped. -/
def finalizeDirty (rules : Rules) (systemAddress : Addr) (keys : Addr → List Hash)
    (t : IntraBlockState Addr Hash × ω) (addr : Addr) : IntraBlockState Addr Hash × ω :=
  if t.1.dirties addr then
    match t.1.stateObjects addr with
    | some so =>
      let (so, o) := so.updateAccount env w rules systemAddress addr true t.2 (keys addr)
      ({ t.1.writeObject addr so with stateObjectsDirty := Function.update t.1.stateObjectsDirty addr true }, o)
    | none => t
  else t

/-- `FinalizeTx`, called after every transaction. -/
def finalizeTx (rules : Rules) (systemAddress : Addr) (s : IntraBlockState Addr Hash) (o : ω) (order : List Addr)
    (keys : Addr → List Hash) : IntraBlockState Addr Hash × ω :=
  let s := s.transferIncreases env order
  let (s, o) := order.foldl (finalizeDirty env w rules systemAddress keys) (s, o)
  (s.clearJournalAndRefund, o)

/-- `SoftFinalise`: mark the dirty live accounts for the block, without writing them. -/
def softFinalise (s : IntraBlockState Addr Hash) : IntraBlockState Addr Hash :=
  { s with stateObjectsDirty := fun addr => s.stateObjectsDirty addr || (s.dirties addr && (s.stateObjects addr).isSome) }
    |>.clearJournalAndRefund

/-- The step of the loop of `MakeWriteSet` over the live objects. -/
def writeObjectOut (rules : Rules) (systemAddress : Addr) (keys : Addr → List Hash)
    (t : IntraBlockState Addr Hash × ω) (addr : Addr) : IntraBlockState Addr Hash × ω :=
  match t.1.stateObjects addr with
  | some so =>
    let (so, o) := so.updateAccount env w rules systemAddress addr (t.1.stateObjectsDirty addr) t.2 (keys addr)
    (t.1.writeObject addr so, o)
  | none => t

/-- `MakeWriteSet`: every address the journal counts becomes dirty for the block (live or not), then every
live object is written. -/
def makeWriteSet (rules : Rules) (systemAddress : Addr) (s : IntraBlockState Addr Hash) (o : ω) (order : List Addr)
    (keys : Addr → List Hash) : IntraBlockState Addr Hash × ω :=
  let s := { s with stateObjectsDirty := fun addr => s.stateObjectsDirty addr || s.dirties addr }
  let (s, o) := order.foldl (writeObjectOut env w rules systemAddress keys) (s, o)
  (s.clearJournalAndRefund, o)

/-- `CommitBlock`. -/
def commitBlock (rules : Rules) (systemAddress : Addr) (s : IntraBlockState Addr Hash) (o : ω) (order : List Addr)
    (keys : Addr → List Hash) : IntraBlockState Addr Hash × ω :=
  (s.transferIncreases env order).makeWriteSet env w rules systemAddress o order keys

/-! ### What the loops do when nothing is waiting -/

/-- With no increase waiting, loading the increased accounts changes nothing. -/
theorem transferIncreases_of_none {s : IntraBlockState Addr Hash} (hinc : ∀ addr, s.balanceInc addr = none)
    (order : List Addr) : s.transferIncreases env order = s := by
  unfold transferIncreases
  exact ListFold.foldl_eq_self (fun t => t = s) (fun t addr _ ht => by subst ht; simp [hinc addr]) rfl

@[simp] theorem clearJournalAndRefund_stateObjects (s : IntraBlockState Addr Hash) :
    s.clearJournalAndRefund.stateObjects = s.stateObjects := rfl

@[simp] theorem clearJournalAndRefund_stateObjectsDirty (s : IntraBlockState Addr Hash) :
    s.clearJournalAndRefund.stateObjectsDirty = s.stateObjectsDirty := rfl

@[simp] theorem clearJournalAndRefund_stateReader (s : IntraBlockState Addr Hash) :
    s.clearJournalAndRefund.stateReader = s.stateReader := rfl

@[simp] theorem clearJournalAndRefund_nilAccounts (s : IntraBlockState Addr Hash) :
    s.clearJournalAndRefund.nilAccounts = s.nilAccounts := rfl

@[simp] theorem clearJournalAndRefund_balanceInc (s : IntraBlockState Addr Hash) :
    s.clearJournalAndRefund.balanceInc = s.balanceInc := rfl

@[simp] theorem clearJournalAndRefund_journal (s : IntraBlockState Addr Hash) :
    s.clearJournalAndRefund.journal = [] := rfl

@[simp] theorem clearJournalAndRefund_validRevisions (s : IntraBlockState Addr Hash) :
    s.clearJournalAndRefund.validRevisions = [] := rfl

@[simp] theorem clearJournalAndRefund_nextRevisionID (s : IntraBlockState Addr Hash) :
    s.clearJournalAndRefund.nextRevisionID = s.nextRevisionID := rfl

/-- The journal after clearing counts nothing. -/
@[simp] theorem dirties_clearJournalAndRefund (s : IntraBlockState Addr Hash) (addr : Addr) :
    s.clearJournalAndRefund.dirties addr = false := rfl

/-- A journal with an entry for `a` and none for another address counts `a` alone. -/
theorem dirties_of_only {s : IntraBlockState Addr Hash} {a : Addr} (ha : ∃ e ∈ s.journal, e.dirtied = some a)
    (h : ∀ e ∈ s.journal, ∀ b, e.dirtied = some b → b = a) :
    s.dirties a = true ∧ ∀ addr, addr ≠ a → s.dirties addr = false := by
  obtain ⟨e, he, hea⟩ := ha
  unfold dirties
  refine ⟨List.any_eq_true.2 ⟨e, he, decide_eq_true hea⟩, fun addr haddr => List.any_eq_false.2 fun e' he' hd => ?_⟩
  exact haddr (h e' he' addr (of_decide_eq_true hd))

variable (rules : Rules) (systemAddress : Addr) (keys : Addr → List Hash)

theorem finalizeDirty_journal (t : IntraBlockState Addr Hash × ω) (addr : Addr) :
    (finalizeDirty env w rules systemAddress keys t addr).1.journal = t.1.journal := by
  unfold finalizeDirty
  split
  · split <;> rfl
  · rfl

theorem finalizeDirty_nextRevisionID (t : IntraBlockState Addr Hash × ω) (addr : Addr) :
    (finalizeDirty env w rules systemAddress keys t addr).1.nextRevisionID = t.1.nextRevisionID := by
  unfold finalizeDirty
  split
  · split <;> rfl
  · rfl

/-- `FinalizeTx` when no increase waits and the journal counts one address `a`, which the loop visits once:
the loop's step at `a`. -/
theorem finalizeTx_of_single {s : IntraBlockState Addr Hash} {a : Addr} {so : StateObject Addr Hash}
    (hinc : ∀ addr, s.balanceInc addr = none) (hdirty : ∀ addr, addr ≠ a → s.dirties addr = false)
    (hda : s.dirties a = true) (hso : s.stateObjects a = some so) (o : ω) {order : List Addr}
    (horder : order.count a = 1) :
    s.finalizeTx env w rules systemAddress o order keys =
      ({ s.writeObject a (so.updateAccount env w rules systemAddress a true o (keys a)).1 with
          stateObjectsDirty := Function.update s.stateObjectsDirty a true }.clearJournalAndRefund,
        (so.updateAccount env w rules systemAddress a true o (keys a)).2) := by
  unfold finalizeTx
  dsimp only
  rw [transferIncreases_of_none env hinc]
  -- the loop keeps the journal, so every other address stays uncounted
  rw [ListFold.foldl_eq_of_count_one (fun t => t.1.journal = s.journal)
    (fun t b hb ht => by
      have hb' : t.1.dirties b = false := by rw [dirties, ht]; exact hdirty b hb
      simp [finalizeDirty, hb'])
    (fun t ht => (finalizeDirty_journal env w rules systemAddress keys t a).trans ht) horder rfl]
  simp [finalizeDirty, hda, hso]

/-- `CommitBlock` when no increase waits, the journal is empty and only `a` is live, and the loop visits
`a` once: the write of `a`. -/
theorem commitBlock_of_single {s : IntraBlockState Addr Hash} {a : Addr} {so : StateObject Addr Hash}
    (hinc : ∀ addr, s.balanceInc addr = none) (hjournal : s.journal = [])
    (hlive : ∀ addr, addr ≠ a → s.stateObjects addr = none) (hso : s.stateObjects a = some so) (o : ω)
    {order : List Addr} (horder : order.count a = 1) :
    s.commitBlock env w rules systemAddress o order keys =
      ((s.writeObject a (so.updateAccount env w rules systemAddress a (s.stateObjectsDirty a) o (keys a)).1
          ).clearJournalAndRefund,
        (so.updateAccount env w rules systemAddress a (s.stateObjectsDirty a) o (keys a)).2) := by
  unfold commitBlock makeWriteSet
  dsimp only
  rw [transferIncreases_of_none env hinc]
  -- an empty journal marks nothing more as dirty
  have hmark : { s with stateObjectsDirty := fun addr => s.stateObjectsDirty addr || s.dirties addr } = s := by
    have hclean : (fun addr => s.stateObjectsDirty addr || s.dirties addr) = s.stateObjectsDirty :=
      funext fun addr => by simp [dirties, hjournal]
    rw [hclean]
  rw [hmark]
  -- the other addresses have no object, before and after the write of `a`
  rw [ListFold.foldl_eq_of_count_one (fun t => ∀ addr, addr ≠ a → t.1.stateObjects addr = none)
    (fun t b hb ht => by simp [writeObjectOut, ht b hb])
    (fun t ht addr haddr => by
      unfold writeObjectOut
      split
      · simp [writeObject, Function.update_of_ne haddr, ht addr haddr]
      · exact ht addr haddr) horder hlive]
  simp [writeObjectOut, hso]

/-- A transaction that leaves one live account `a`, counted by the journal, non-empty and not self-destructed,
then the end of the block: `a` is written back undeleted, with only its committed storage changed, and is
dirty for the block. -/
theorem commitBlock_finalizeTx_of_single {ω₁ ω₂ : Type} (w₁ : StateWriter Addr Hash ω₁) (w₂ : StateWriter Addr Hash ω₂)
    {s : IntraBlockState Addr Hash} {a : Addr} {so : StateObject Addr Hash}
    (hinc : ∀ addr, s.balanceInc addr = none) (hlive : ∀ addr, addr ≠ a → s.stateObjects addr = none)
    (hso : s.stateObjects a = some so) (hdirty : ∀ addr, addr ≠ a → s.dirties addr = false)
    (hda : s.dirties a = true) (hsd : so.selfdestructed = false) (he : so.empty env = false) (o₁ : ω₁) (o₂ : ω₂)
    {order : List Addr} (horder : order.count a = 1) :
    ∃ origin,
      ((s.finalizeTx env w₁ rules systemAddress o₁ order keys).1.commitBlock env w₂ rules systemAddress o₂ order
          keys).1.stateObjects = Function.update s.stateObjects a (some { so with deleted := false, originStorage := origin }) ∧
      ((s.finalizeTx env w₁ rules systemAddress o₁ order keys).1.commitBlock env w₂ rules systemAddress o₂ order
          keys).1.stateObjectsDirty = Function.update s.stateObjectsDirty a true := by
  -- `FinalizeTx` writes the object back undeleted and marks it for the block
  obtain ⟨origin₁, hso₁⟩ := StateObject.updateAccount_of_kept_fst env w₁ rules systemAddress a hsd he o₁ (keys a)
  rw [finalizeTx_of_single env w₁ rules systemAddress keys hinc hdirty hda hso o₁ horder, hso₁]
  set t := ({ s.writeObject a { so with deleted := false, originStorage := origin₁ } with
    stateObjectsDirty := Function.update s.stateObjectsDirty a true } : IntraBlockState Addr Hash).clearJournalAndRefund
  have htlive : ∀ addr, addr ≠ a → t.stateObjects addr = none := fun addr haddr => by
    simp [t, Function.update_of_ne haddr, hlive addr haddr]
  have htso : t.stateObjects a = some { so with deleted := false, originStorage := origin₁ } := by simp [t]
  -- `CommitBlock` writes it once more, as dirty
  obtain ⟨origin₂, hso₂⟩ := StateObject.updateAccount_of_kept_fst env w₂ rules systemAddress a
    (show ({ so with deleted := false, originStorage := origin₁ } : StateObject Addr Hash).selfdestructed = false
      from hsd) he o₂ (keys a)
  have htinc : ∀ addr, t.balanceInc addr = none := fun addr => by simp [t, hinc addr]
  have htd : t.stateObjectsDirty a = true := by simp [t]
  rw [commitBlock_of_single env w₂ rules systemAddress keys htinc rfl htlive htso o₂ horder, htd, hso₂]
  exact ⟨origin₂, by simp [t], by simp [t]⟩

/-- The same for an account with no dirty storage and no loaded code, with what the end of the block
writes. -/
theorem commitBlock_finalizeTx_of_clean {ω₁ ω₂ : Type} (w₁ : StateWriter Addr Hash ω₁) (w₂ : StateWriter Addr Hash ω₂)
    {s : IntraBlockState Addr Hash} {a : Addr} {so : StateObject Addr Hash}
    (hinc : ∀ addr, s.balanceInc addr = none) (hlive : ∀ addr, addr ≠ a → s.stateObjects addr = none)
    (hso : s.stateObjects a = some so) (hdirty : ∀ addr, addr ≠ a → s.dirties addr = false)
    (hda : s.dirties a = true) (hsd : so.selfdestructed = false) (he : so.empty env = false)
    (hclean : ∀ key, so.dirtyStorage key = none) (hcode : so.code = none) (o₁ : ω₁) (o₂ : ω₂)
    {order : List Addr} (horder : order.count a = 1) :
    let post := (s.finalizeTx env w₁ rules systemAddress o₁ order keys).1.commitBlock env w₂ rules systemAddress o₂
      order keys
    post.1.stateObjects = Function.update s.stateObjects a (some { so with deleted := false }) ∧
      post.1.stateObjectsDirty = Function.update s.stateObjectsDirty a true ∧
      post.2 = w₂.updateAccountData (if so.created then w₂.createContract o₂ a else o₂) a so.original so.data := by
  intro post
  -- `FinalizeTx` writes the object back undeleted and marks it for the block
  have hpost : post = (s.finalizeTx env w₁ rules systemAddress o₁ order keys).1.commitBlock env w₂ rules
      systemAddress o₂ order keys := rfl
  rw [finalizeTx_of_single env w₁ rules systemAddress keys hinc hdirty hda hso o₁ horder,
    StateObject.updateAccount_of_kept_clean env w₁ rules systemAddress a hsd he hclean hcode] at hpost
  set t := ({ s.writeObject a { so with deleted := false } with
    stateObjectsDirty := Function.update s.stateObjectsDirty a true } : IntraBlockState Addr Hash).clearJournalAndRefund
  have htlive : ∀ addr, addr ≠ a → t.stateObjects addr = none := fun addr haddr => by
    simp [t, Function.update_of_ne haddr, hlive addr haddr]
  have htso : t.stateObjects a = some { so with deleted := false } := by simp [t]
  have htinc : ∀ addr, t.balanceInc addr = none := fun addr => by simp [t, hinc addr]
  have htd : t.stateObjectsDirty a = true := by simp [t]
  -- `CommitBlock` writes it once more, as dirty; undeleting it again changes nothing
  have hsd' : ({ so with deleted := false } : StateObject Addr Hash).selfdestructed = false := hsd
  have he' : ({ so with deleted := false } : StateObject Addr Hash).empty env = false := he
  have hclean' : ∀ key, ({ so with deleted := false } : StateObject Addr Hash).dirtyStorage key = none := hclean
  have hcode' : ({ so with deleted := false } : StateObject Addr Hash).code = none := hcode
  rw [commitBlock_of_single env w₂ rules systemAddress keys htinc rfl htlive htso o₂ horder, htd,
    StateObject.updateAccount_of_kept_clean env w₂ rules systemAddress a hsd' he' hclean' hcode'] at hpost
  rw [hpost]
  exact ⟨by simp [t], by simp [t], rfl⟩

/-! ### The accounts the loops leave alone -/

section Untouched

variable {a : Addr}

theorem dirties_append (s : IntraBlockState Addr Hash) (e : JournalEntry Addr Hash) (a : Addr) :
    (s.append e).dirties a = (s.dirties a || decide (e.dirtied = some a)) := by
  simp [dirties, List.any_append]

/-- What a step at another account keeps of `a`: whether the journal counts it, its waiting increase, and the
marks of the block. -/
def KeepsAt (a : Addr) (s t : IntraBlockState Addr Hash) : Prop :=
  t.dirties a = s.dirties a ∧ t.balanceInc a = s.balanceInc a ∧ t.stateObjectsDirty = s.stateObjectsDirty

theorem KeepsAt.refl (s : IntraBlockState Addr Hash) : KeepsAt a s s := ⟨rfl, rfl, rfl⟩

theorem KeepsAt.trans {s t u : IntraBlockState Addr Hash} (h₁ : KeepsAt a s t) (h₂ : KeepsAt a t u) :
    KeepsAt a s u :=
  ⟨h₂.1.trans h₁.1, h₂.2.1.trans h₁.2.1, h₂.2.2.trans h₁.2.2⟩

/-- An entry that counts no account, or another one. -/
theorem keepsAt_append (s : IntraBlockState Addr Hash) {e : JournalEntry Addr Hash} (he : e.dirtied ≠ some a) :
    KeepsAt a s (s.append e) :=
  ⟨by rw [dirties_append, decide_eq_false he, Bool.or_false], rfl, rfl⟩

theorem keepsAt_writeObject (s : IntraBlockState Addr Hash) (addr : Addr) (obj : StateObject Addr Hash) :
    KeepsAt a s (s.writeObject addr obj) := ⟨rfl, rfl, rfl⟩

theorem keepsAt_setStateObject (s : IntraBlockState Addr Hash) {addr : Addr} (hne : addr ≠ a)
    (obj : StateObject Addr Hash) : KeepsAt a s (s.setStateObject addr obj) := by
  unfold setStateObject
  split
  · split
    · -- the transfer is journaled with no account, and the increase of `addr` alone changes
      exact ⟨(keepsAt_append s (e := .balanceIncreaseTransfer addr) (by simp [JournalEntry.dirtied])).1,
        Function.update_of_ne (Ne.symm hne) _ _, rfl⟩
    · exact keepsAt_writeObject s addr obj
  · exact keepsAt_writeObject s addr obj

theorem keepsAt_createObject (s : IntraBlockState Addr Hash) {addr : Addr} (hne : addr ≠ a)
    (previous : Option (StateObject Addr Hash)) : KeepsAt a s (s.createObject env addr previous).2 := by
  unfold createObject
  dsimp only
  cases previous with
  | none =>
    exact (keepsAt_append s (e := .createObjectChange addr) (by simp [JournalEntry.dirtied, hne])).trans
      (keepsAt_setStateObject _ hne _)
  | some previous =>
    exact (keepsAt_append s (e := .resetObjectChange addr previous) (by simp [JournalEntry.dirtied])).trans
      (keepsAt_setStateObject _ hne _)

theorem keepsAt_getStateObject (s : IntraBlockState Addr Hash) {addr : Addr} (hne : addr ≠ a) :
    KeepsAt a s (s.getStateObject env addr).2 := by
  have hcreate : ∀ t : IntraBlockState Addr Hash, KeepsAt a t (t.createIfIncreased env addr).2 := fun t => by
    unfold createIfIncreased
    split
    · split
      · exact keepsAt_createObject env t hne none
      · exact .refl t
    · exact .refl t
  unfold getStateObject
  split
  · exact .refl s
  · split
    · exact hcreate s
    · split
      · exact KeepsAt.trans ⟨rfl, rfl, rfl⟩ (hcreate _)
      · exact keepsAt_setStateObject s hne _

/-- Loading the waiting increases keeps an account whose increase, if any, is already moved. -/
theorem keepsAt_transferIncreases (s : IntraBlockState Addr Hash) (order : List Addr)
    (hinc : ∀ bi, s.balanceInc a = some bi → bi.transferred = true) : KeepsAt a s (s.transferIncreases env order) := by
  -- the increase of `a` stays moved along the loop, so the loop's step at `a` does nothing
  let Moved : IntraBlockState Addr Hash → Prop := fun t => ∀ bi, t.balanceInc a = some bi → bi.transferred = true
  suffices h : Moved s → KeepsAt a s (s.transferIncreases env order) from h hinc
  unfold transferIncreases
  refine ListFold.foldl_rel (fun t t' => Moved t → KeepsAt a t t') (fun t _ => .refl t)
    (fun t₁ t₂ t₃ h₁₂ h₂₃ hm => ?_) (fun t addr _ hm => ?_) s
  · have h₁ := h₁₂ hm
    exact h₁.trans (h₂₃ fun bi hbi => hm bi (h₁.2.1 ▸ hbi))
  · split
    · rename_i bi hbi
      split
      · rename_i htr
        by_cases hne : addr = a
        · subst hne
          simp [hm bi hbi] at htr
        · exact keepsAt_getStateObject env t hne
      · exact .refl t
    · exact .refl t

variable (rules : Rules) (systemAddress : Addr) (keys : Addr → List Hash)

/-- `SoftFinalise` marks no account the journal does not count. -/
theorem softFinalise_stateObjectsDirty_of_not_dirty {s : IntraBlockState Addr Hash} (hd : s.dirties a = false) :
    s.softFinalise.stateObjectsDirty a = s.stateObjectsDirty a := by
  simp [softFinalise, hd]

/-- `MakeWriteSet` marks, and so writes as dirty, no account the journal does not count. -/
theorem makeWriteSet_stateObjectsDirty_of_not_dirty {s : IntraBlockState Addr Hash} (hd : s.dirties a = false)
    (o : ω) (order : List Addr) :
    (s.makeWriteSet env w rules systemAddress o order keys).1.stateObjectsDirty a = s.stateObjectsDirty a := by
  have hloop := ListFold.foldl_proj (fun t : IntraBlockState Addr Hash × ω => t.1.stateObjectsDirty)
    (f := writeObjectOut env w rules systemAddress keys) (l := order) (fun t addr _ => by
      unfold writeObjectOut
      split
      · rfl
      · rfl)
    ({ s with stateObjectsDirty := fun addr => s.stateObjectsDirty addr || s.dirties addr }, o)
  unfold makeWriteSet
  dsimp only
  rcases hf : order.foldl (writeObjectOut env w rules systemAddress keys)
    ({ s with stateObjectsDirty := fun addr => s.stateObjectsDirty addr || s.dirties addr }, o) with ⟨s', o'⟩
  rw [hf] at hloop
  dsimp only at hloop ⊢
  rw [clearJournalAndRefund_stateObjectsDirty, hloop]
  simp only [hd, Bool.or_false]

/-- The loop of `FinalizeTx` over the dirty accounts marks, and writes, no account the journal does not count. -/
theorem finalizeDirty_stateObjectsDirty_of_not_dirty (t : IntraBlockState Addr Hash × ω) (addr : Addr)
    (hd : t.1.dirties a = false) :
    (finalizeDirty env w rules systemAddress keys t addr).1.dirties a = false ∧
      (finalizeDirty env w rules systemAddress keys t addr).1.stateObjectsDirty a = t.1.stateObjectsDirty a := by
  have hj := finalizeDirty_journal env w rules systemAddress keys t addr
  refine ⟨by rw [dirties, hj]; exact hd, ?_⟩
  unfold finalizeDirty
  split
  · rename_i hdirty
    split
    · -- the account written is `addr`, which the journal counts and `a` is not
      have hne : addr ≠ a := fun h => by rw [h, hd] at hdirty; cases hdirty
      exact Function.update_of_ne (Ne.symm hne) _ _
    · rfl
  · rfl

/-- `FinalizeTx` marks, and writes, no account the journal does not count and whose increase, if any, is
already moved into its object. -/
theorem finalizeTx_stateObjectsDirty_of_not_dirty {s : IntraBlockState Addr Hash} (hd : s.dirties a = false)
    (hinc : ∀ bi, s.balanceInc a = some bi → bi.transferred = true) (o : ω) (order : List Addr) :
    (s.finalizeTx env w rules systemAddress o order keys).1.stateObjectsDirty a = s.stateObjectsDirty a := by
  have hload := keepsAt_transferIncreases env s order hinc
  -- along the loop `a` stays uncounted, and so unmarked
  have hloop := ListFold.foldl_rel (fun t t' : IntraBlockState Addr Hash × ω =>
      t.1.dirties a = false → t'.1.dirties a = false ∧ t'.1.stateObjectsDirty a = t.1.stateObjectsDirty a)
    (fun _ h => ⟨h, rfl⟩)
    (fun _ _ _ h₁₂ h₂₃ h => ⟨(h₂₃ (h₁₂ h).1).1, (h₂₃ (h₁₂ h).1).2.trans (h₁₂ h).2⟩)
    (f := finalizeDirty env w rules systemAddress keys) (l := order)
    (fun t addr _ h => finalizeDirty_stateObjectsDirty_of_not_dirty env w rules systemAddress keys t addr h)
    (s.transferIncreases env order, o)
  unfold finalizeTx
  dsimp only
  rcases hf : order.foldl (finalizeDirty env w rules systemAddress keys) (s.transferIncreases env order, o) with
    ⟨s', o'⟩
  rw [hf] at hloop
  dsimp only at hloop ⊢
  rw [clearJournalAndRefund_stateObjectsDirty, (hloop (hload.1.trans hd)).2, hload.2.2]

end Untouched

end IntraBlockState

end AmazeChain.State
