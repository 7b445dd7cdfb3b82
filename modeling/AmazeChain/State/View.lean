import AmazeChain.State.Dirties

/-!
# The accounts as the reads see them

`IntraBlockState` is a cache over the accounts of the block's start: it reads an account from the database
when it is first needed (`getStateObject`), remembers the addresses the database has no account for
(`nilAccounts`), loads code and committed storage slot by slot, and keeps an `AddBalance` of an account it has
not read in `balanceInc` instead of reading the account.  None of that is meant to be seen.  This module says
what is seen: the account at every address with its caches resolved, `AccountView`, and how every call changes
it, `AccountView.call`, a plain map of accounts in which each call writes one account.

`IntraBlockState.view` is the account `getStateObject` would return at each address, resolved; the reads of
the state are functions of it (`reads_eq_view`), and from every state where the caches are coherent
(`ViewInv`, which `New` has) a run of calls moves the view as the abstract calls move it (`view_run`).  The
lazy `AddBalance` of an account not read yet in particular ends where the one that reads the account ends
(`addBalance_view_eq_eager`).

Coherence needs little: a live object has no fake storage, a contract created in this block has no cached
committed value, and an increase waiting in `balanceInc` is transferred exactly when its account is live.
The journal, the refund, the logs and the access list are not in the view; the reverts, which do not keep it
(a revert can drop an object whose increase it keeps), and `GetCodeSize`, which reads the size the database
reports rather than the code, are left out.
-/

namespace AmazeChain.State

variable {Addr Hash : Type}

/-- An account as the reads see it: the fields of the object, the code as `Code()` loads it, and the value at
the start of the block of every slot, cached or read from the database at the object's incarnation. -/
structure AccountView (Hash : Type) where
  deleted : Bool
  selfdestructed : Bool
  created : Bool
  balance : BitVec 256
  nonce : UInt64
  codeHash : Hash
  incarnation : UInt16
  code : Option (List UInt8)
  committed : Hash → BitVec 256
  dirty : Hash → Option (BitVec 256)

namespace AccountView

/-- The committed value `GetCommittedState` returns: none for a contract created in this block. -/
def committedAt (acc : AccountView Hash) (key : Hash) : BitVec 256 :=
  if acc.created then 0 else acc.committed key

/-- The current value `GetState` returns: the dirty one, or else the committed one. -/
def stateAt (acc : AccountView Hash) (key : Hash) : BitVec 256 :=
  (acc.dirty key).getD (acc.committedAt key)

/-- The account with an increase of its balance added, if there is one. -/
def addIncrease (acc : AccountView Hash) : Option (BitVec 256) → AccountView Hash
  | some increase => { acc with balance := acc.balance + increase }
  | none => acc

@[simp] theorem add_zero_balance (acc : AccountView Hash) : { acc with balance := acc.balance + 0 } = acc := by
  cases acc
  simp

@[simp] theorem sub_zero_balance (acc : AccountView Hash) : { acc with balance := acc.balance - 0 } = acc := by
  cases acc
  simp

/-! ### The reads, at an address with an account or none -/

/-- `Exist`. -/
def exist : Option (AccountView Hash) → Bool
  | some acc => !acc.deleted
  | none => false

/-- `GetBalance`. -/
def getBalance : Option (AccountView Hash) → BitVec 256
  | some acc => if acc.deleted then 0 else acc.balance
  | none => 0

/-- `GetNonce`. -/
def getNonce : Option (AccountView Hash) → UInt64
  | some acc => if acc.deleted then 0 else acc.nonce
  | none => 0

/-- `GetCode`. -/
def getCode : Option (AccountView Hash) → List UInt8
  | some acc => if acc.deleted then [] else acc.code.getD []
  | none => []

/-- `GetState`. -/
def getState (key : Hash) : Option (AccountView Hash) → BitVec 256
  | some acc => if acc.deleted then 0 else acc.stateAt key
  | none => 0

/-- `GetCommittedState`. -/
def getCommittedState (key : Hash) : Option (AccountView Hash) → BitVec 256
  | some acc => if acc.deleted then 0 else acc.committedAt key
  | none => 0

/-- `HasSelfdestructed`. -/
def hasSelfdestructed : Option (AccountView Hash) → Bool
  | some acc => !acc.deleted && !acc.created && acc.selfdestructed
  | none => false

variable (env : StateEnv Addr Hash) (reader : StateReader Addr Hash)

/-- `GetCodeHash`. -/
def getCodeHash : Option (AccountView Hash) → Hash
  | some acc => if acc.deleted then env.zeroHash else acc.codeHash
  | none => env.zeroHash

/-! ### The calls, on the map of accounts -/

/-- A new account at `addr` of incarnation `incarnation`: no balance, nonce or code, and the storage the
database holds for that incarnation. -/
def fresh (addr : Addr) (incarnation : UInt16) : AccountView Hash where
  deleted := false
  selfdestructed := false
  created := false
  balance := 0
  nonce := 0
  codeHash := env.emptyCodeHash
  incarnation
  code := none
  committed := fun key => (reader.readAccountStorage addr incarnation key).getD 0
  dirty := fun _ => none

/-- The account a write at `addr` starts from: the account there, or a new one where there is none or it is
deleted. -/
def getOrNew (addr : Addr) : Option (AccountView Hash) → AccountView Hash
  | some acc => if acc.deleted then fresh env reader addr 0 else acc
  | none => fresh env reader addr 0

/-- An account not read yet, with the increase waiting for it: an increase makes an account where the
database has none. -/
def withPending (addr : Addr) : Option (AccountView Hash) → Option (BitVec 256) → Option (AccountView Hash)
  | some acc, increase => some (acc.addIncrease increase)
  | none, some increase => some ((fresh env reader addr 0).addIncrease (some increase))
  | none, none => none

/-- An increase of an account not read yet adds to the increase waiting for it: the account it leaves is the
account a write starts from, with the increase added.  The accounts the database holds are not deleted. -/
theorem withPending_addIncrease {addr : Addr} {o : Option (AccountView Hash)}
    (ho : ∀ acc, o = some acc → acc.deleted = false) (increase : Option (BitVec 256)) (amount : BitVec 256) :
    withPending env reader addr o (some (increase.getD 0 + amount)) =
      some { getOrNew env reader addr (withPending env reader addr o increase) with
        balance := (getOrNew env reader addr (withPending env reader addr o increase)).balance + amount } := by
  rcases o with _ | acc
  · cases increase <;> simp [withPending, getOrNew, addIncrease, fresh]
  · have hd := ho acc rfl
    cases increase <;> simp [withPending, getOrNew, addIncrease, hd, BitVec.add_assoc]

variable [DecidableEq Addr] [DecidableEq Hash]

/-- `Empty` (EIP-161): no account, a deleted one, or one with no nonce, balance or code. -/
def empty : Option (AccountView Hash) → Bool
  | some acc => acc.deleted || (acc.nonce == 0 && acc.balance == 0 && decide (acc.codeHash = env.emptyCodeHash))
  | none => true

/-- A write of the account at `addr`, which is made first if it is missing or deleted. -/
def write (w : Addr → Option (AccountView Hash)) (addr : Addr) (f : AccountView Hash → AccountView Hash) :
    Addr → Option (AccountView Hash) :=
  Function.update w addr (some (f (getOrNew env reader addr (w addr))))

/-- A write of a slot: a write of the value already there leaves the slot clean. -/
def setState (key : Hash) (value : BitVec 256) (acc : AccountView Hash) : AccountView Hash :=
  if acc.stateAt key = value then acc else { acc with dirty := Function.update acc.dirty key (some value) }

/-- `CreateAccount`: a new account that keeps the balance of the account it replaces, deleted or not; a
contract's account takes the next incarnation, after that of a destructed account or else the database's. -/
def createAccount (addr : Addr) (contractCreation : Bool) (previous : Option (AccountView Hash)) :
    AccountView Hash :=
  let prevInc : UInt16 := match previous with
    | some previous => if previous.selfdestructed then previous.incarnation else reader.readAccountIncarnation addr
    | none => reader.readAccountIncarnation addr
  let acc := if contractCreation then { fresh env reader addr (prevInc + 1) with created := true }
    else fresh env reader addr 0
  match previous with
  | some previous => { acc with balance := previous.balance }
  | none => acc

/-- `Selfdestruct`: an account that is there loses its balance and is no longer one created in this block. -/
def selfdestruct (w : Addr → Option (AccountView Hash)) (addr : Addr) : Addr → Option (AccountView Hash) :=
  match w addr with
  | some acc =>
    if acc.deleted then w
    else Function.update w addr (some { acc with selfdestructed := true, created := false, balance := 0 })
  | none => w

/-- The accounts after a call: every write changes the account at its address only, and the reads, the refund,
the logs and the access list change none. -/
def call (w : Addr → Option (AccountView Hash)) : IntraBlockState.Call Addr Hash → Addr → Option (AccountView Hash)
  | .addBalance addr amount => write env reader w addr fun acc => { acc with balance := acc.balance + amount }
  | .subBalance addr amount => write env reader w addr fun acc => { acc with balance := acc.balance - amount }
  | .setBalance addr amount => write env reader w addr fun acc => { acc with balance := amount }
  | .setNonce addr nonce => write env reader w addr fun acc => { acc with nonce }
  | .setCode addr code =>
    write env reader w addr fun acc => { acc with codeHash := env.keccak256Hash code, code := some code }
  | .setState addr key value => write env reader w addr (setState key value)
  | .createAccount addr contractCreation =>
    Function.update w addr (some (createAccount env reader addr contractCreation (w addr)))
  | .suicide addr => selfdestruct w addr
  | .selfdestruct addr => selfdestruct w addr
  | _ => w

/-- The calls one after the other. -/
def run (w : Addr → Option (AccountView Hash)) : List (IntraBlockState.Call Addr Hash) → Addr → Option (AccountView Hash)
  | [] => w
  | c :: cs => run (call env reader w c) cs

end AccountView

namespace StateObject

variable [DecidableEq Hash] (env : StateEnv Addr Hash) (reader : StateReader Addr Hash)

/-- The object with its caches resolved. -/
def view (so : StateObject Addr Hash) : AccountView Hash where
  deleted := so.deleted
  selfdestructed := so.selfdestructed
  created := so.created
  balance := so.data.balance
  nonce := so.data.nonce
  codeHash := so.data.codeHash
  incarnation := so.data.incarnation
  code := so.code.or
    (if so.data.codeHash = env.emptyCodeHash then none
     else reader.readAccountCode so.address so.data.incarnation so.data.codeHash)
  committed := fun key =>
    (so.originStorage key).getD ((reader.readAccountStorage so.address so.data.incarnation key).getD 0)
  dirty := so.dirtyStorage

@[simp] theorem view_deleted (so : StateObject Addr Hash) : (so.view env reader).deleted = so.deleted := rfl

@[simp] theorem view_selfdestructed (so : StateObject Addr Hash) :
    (so.view env reader).selfdestructed = so.selfdestructed := rfl

@[simp] theorem view_created (so : StateObject Addr Hash) : (so.view env reader).created = so.created := rfl

@[simp] theorem view_balance (so : StateObject Addr Hash) : (so.view env reader).balance = so.data.balance := rfl

@[simp] theorem view_nonce (so : StateObject Addr Hash) : (so.view env reader).nonce = so.data.nonce := rfl

@[simp] theorem view_codeHash (so : StateObject Addr Hash) : (so.view env reader).codeHash = so.data.codeHash := rfl

/-- What the view of an object needs of its caches: no fake storage, and no cached committed value for a
contract created in this block, whose committed values are all zero. -/
structure ObjectInv (so : StateObject Addr Hash) : Prop where
  fakeStorage : so.fakeStorage = none
  created : so.created = true → ∀ key, so.originStorage key = none

theorem objectInv_newObject (address : Addr) (data original : StateAccount Hash) :
    ObjectInv (newObject env address data original) :=
  ⟨rfl, fun _ _ => rfl⟩

/-- `Code()` returns the code of the view. -/
theorem loadCode_fst (so : StateObject Addr Hash) : (so.loadCode env reader).1 = (so.view env reader).code := by
  rcases hc : so.code with _ | code
  · by_cases he : so.data.codeHash = env.emptyCodeHash <;> simp [loadCode, view, hc, he]
  · simp [loadCode, view, hc]

/-- Loading the code changes no view: the cache takes the code the view reads. -/
theorem view_loadCode (so : StateObject Addr Hash) : (so.loadCode env reader).2.view env reader = so.view env reader := by
  rcases hc : so.code with _ | code
  · by_cases he : so.data.codeHash = env.emptyCodeHash
    · simp [loadCode, hc, he]
    · have hcode := loadCode_fst env reader so
      simp only [loadCode, hc, he, if_false] at hcode ⊢
      simp [view, hc, he]
  · simp [loadCode, hc]

theorem ObjectInv.loadCode {so : StateObject Addr Hash} (h : ObjectInv so) : ObjectInv (so.loadCode env reader).2 := by
  unfold StateObject.loadCode
  split
  · exact h
  · split_ifs
    · exact h
    · exact ⟨h.fakeStorage, h.created⟩

/-- `GetCommittedState` returns the committed value of the view. -/
theorem getCommittedState_fst_view {so : StateObject Addr Hash} (h : ObjectInv so) (key : Hash) :
    (so.getCommittedState reader key).1 = (so.view env reader).committedAt key := by
  rw [getCommittedState_fst reader so h.fakeStorage]
  by_cases hc : so.created
  · simp [AccountView.committedAt, view, hc, h.created hc key]
  · simp [AccountView.committedAt, view, hc]

/-- `GetState` returns the current value of the view. -/
theorem getState_fst_view {so : StateObject Addr Hash} (h : ObjectInv so) (key : Hash) :
    (so.getState reader key).1 = (so.view env reader).stateAt key := by
  rw [getState_fst reader so h.fakeStorage, getCommittedState_fst_view env reader h]
  rfl

/-- A load of a committed value changes no view: the cache takes the value the view reads. -/
theorem view_getCommittedState (so : StateObject Addr Hash) (key : Hash) :
    (so.getCommittedState reader key).2.view env reader = so.view env reader := by
  rcases hf : so.fakeStorage with _ | fake
  · rcases ho : so.originStorage key with _ | v
    · by_cases hc : so.created
      · simp [getCommittedState, hf, ho, hc]
      · -- the cache takes the database's value at `key`, which the view already read there
        have hload : (so.getCommittedState reader key).2 =
            { so with
              originStorage := Function.update so.originStorage key
                (some ((reader.readAccountStorage so.address so.data.incarnation key).getD 0)),
              blockOriginStorage := Function.update so.blockOriginStorage key
                (some ((reader.readAccountStorage so.address so.data.incarnation key).getD 0)) } := by
          simp [getCommittedState, hf, ho, hc]
        rw [hload]
        simp only [view]
        congr 1
        funext key'
        by_cases hk : key' = key
        · subst hk
          have hu : Function.update so.originStorage key'
              (some ((reader.readAccountStorage so.address so.data.incarnation key').getD 0)) key' =
              some ((reader.readAccountStorage so.address so.data.incarnation key').getD 0) :=
            Function.update_self _ _ _
          rw [hu, ho]
          rfl
        · have hu : Function.update so.originStorage key
              (some ((reader.readAccountStorage so.address so.data.incarnation key).getD 0)) key' =
              so.originStorage key' :=
            Function.update_of_ne hk _ _
          rw [hu]
    · simp [getCommittedState, hf, ho]
  · simp [getCommittedState, hf]

theorem view_getState (so : StateObject Addr Hash) (key : Hash) :
    (so.getState reader key).2.view env reader = so.view env reader := by
  unfold getState
  split
  · rfl
  · split
    · rfl
    · exact view_getCommittedState env reader so key

theorem ObjectInv.getCommittedState {so : StateObject Addr Hash} (h : ObjectInv so) (key : Hash) :
    ObjectInv (so.getCommittedState reader key).2 := by
  obtain ⟨origin, blockOrigin, hso⟩ := getCommittedState_snd reader so key
  refine ⟨by rw [hso]; exact h.fakeStorage, fun hc k => ?_⟩
  -- a contract created in this block loads nothing
  have hc' : so.created = true := by rw [hso] at hc; exact hc
  have hself : (so.getCommittedState reader key).2 = so := by
    simp [StateObject.getCommittedState, h.fakeStorage, h.created hc' key, hc']
  rw [hself]
  exact h.created hc' k

theorem ObjectInv.getState {so : StateObject Addr Hash} (h : ObjectInv so) (key : Hash) :
    ObjectInv (so.getState reader key).2 := by
  unfold StateObject.getState
  split
  · exact h
  · split
    · exact h
    · exact h.getCommittedState reader key

end StateObject

namespace IntraBlockState

/-- The caches are coherent: every live object answers its reads from its view, and an increase waiting in
`balanceInc` is transferred exactly when its account is live. -/
structure ViewInv (s : IntraBlockState Addr Hash) : Prop where
  objects : ∀ addr so, s.stateObjects addr = some so → StateObject.ObjectInv so
  transferred : ∀ addr bi, s.balanceInc addr = some bi → bi.transferred = (s.stateObjects addr).isSome

theorem ViewInv.of_eq {s t : IntraBlockState Addr Hash} (h : ViewInv s) (hobj : t.stateObjects = s.stateObjects)
    (hinc : t.balanceInc = s.balanceInc) : ViewInv t :=
  ⟨fun addr so hso => h.objects addr so (hobj ▸ hso), fun addr bi hbi => by
    rw [hobj]
    exact h.transferred addr bi (hinc ▸ hbi)⟩

variable (env : StateEnv Addr Hash)

theorem viewInv_new (reader : StateReader Addr Hash) : ViewInv (new env reader) :=
  ⟨fun _ _ h => by simp at h, fun _ _ h => by simp at h⟩

/-- The increase of the balance at `addr` that waits in `balanceInc` to move into its object, if any. -/
def pendingIncrease (s : IntraBlockState Addr Hash) (addr : Addr) : Option (BitVec 256) :=
  match s.balanceInc addr with
  | some bi => if bi.transferred then none else some bi.increase
  | none => none

theorem pendingIncrease_of_live {s : IntraBlockState Addr Hash} (h : ViewInv s) {addr : Addr}
    {so : StateObject Addr Hash} (hso : s.stateObjects addr = some so) : s.pendingIncrease addr = none := by
  rcases hbi : s.balanceInc addr with _ | bi
  · simp [pendingIncrease, hbi]
  · have ht := h.transferred addr bi hbi
    rw [hso] at ht
    simp [pendingIncrease, hbi, ht]

theorem withIncrease_of_pendingIncrease {s : IntraBlockState Addr Hash} {addr : Addr}
    (h : s.pendingIncrease addr = none) (object : StateObject Addr Hash) : s.withIncrease addr object = object := by
  unfold pendingIncrease at h
  unfold withIncrease
  split
  · rename_i bi hbi
    rw [hbi] at h
    cases ht : bi.transferred
    · simp [ht] at h
    · simp
  · rfl

theorem withIncrease_congr {s t : IntraBlockState Addr Hash} {addr : Addr} (h : t.balanceInc addr = s.balanceInc addr)
    (object : StateObject Addr Hash) : t.withIncrease addr object = s.withIncrease addr object := by
  unfold withIncrease
  rw [h]

theorem objectInv_withIncrease (s : IntraBlockState Addr Hash) (addr : Addr) {object : StateObject Addr Hash}
    (h : StateObject.ObjectInv object) : StateObject.ObjectInv (s.withIncrease addr object) := by
  unfold withIncrease
  split
  · split_ifs
    · exact ⟨h.fakeStorage, h.created⟩
    · exact h
  · exact h

variable [DecidableEq Addr]

@[simp] theorem pendingIncrease_append (s : IntraBlockState Addr Hash) (e : JournalEntry Addr Hash) (addr : Addr) :
    (s.append e).pendingIncrease addr = s.pendingIncrease addr := rfl

@[simp] theorem pendingIncrease_writeObject (s : IntraBlockState Addr Hash) (addr a : Addr)
    (object : StateObject Addr Hash) : (s.writeObject a object).pendingIncrease addr = s.pendingIncrease addr := rfl

theorem setStateObject_stateReader (s : IntraBlockState Addr Hash) (addr : Addr) (object : StateObject Addr Hash) :
    (s.setStateObject addr object).stateReader = s.stateReader := by
  unfold setStateObject
  split
  · split_ifs <;> rfl
  · rfl

theorem setStateObject_nilAccounts (s : IntraBlockState Addr Hash) (addr : Addr) (object : StateObject Addr Hash) :
    (s.setStateObject addr object).nilAccounts = s.nilAccounts := by
  unfold setStateObject
  split
  · split_ifs <;> rfl
  · rfl

/-- `setStateObject` marks the increase at `addr` as transferred, and changes no other. -/
theorem setStateObject_balanceInc (s : IntraBlockState Addr Hash) (addr : Addr) (object : StateObject Addr Hash) :
    (s.setStateObject addr object).balanceInc =
      Function.update s.balanceInc addr ((s.balanceInc addr).map fun bi => { bi with transferred := true }) := by
  unfold setStateObject
  rcases hbi : s.balanceInc addr with _ | bi
  · simp [hbi]
  · cases ht : bi.transferred
    · simp [ht]
    · have hbi' : some { bi with transferred := true } = some bi := by rw [← ht]
      simp [ht, hbi', hbi]

theorem ViewInv.append {s : IntraBlockState Addr Hash} (h : ViewInv s) (e : JournalEntry Addr Hash) :
    ViewInv (s.append e) :=
  h.of_eq rfl rfl

theorem ViewInv.writeObject {s : IntraBlockState Addr Hash} (h : ViewInv s) {addr : Addr}
    (hlive : (s.stateObjects addr).isSome) {object : StateObject Addr Hash} (ho : StateObject.ObjectInv object) :
    ViewInv (s.writeObject addr object) := by
  refine ⟨fun b so hso => ?_, fun b bi hbi => ?_⟩
  · by_cases hb : b = addr
    · subst hb
      simp only [writeObject_stateObjects, Function.update_self, Option.some.injEq] at hso
      exact hso ▸ ho
    · exact h.objects b so (by simpa [Function.update_of_ne hb] using hso)
  · have ht := h.transferred b bi hbi
    by_cases hb : b = addr
    · subst hb
      simpa [hlive] using ht
    · simpa [Function.update_of_ne hb] using ht

theorem ViewInv.dirty (h : ViewInv t) (a : Addr) : ViewInv (t.dirty a) :=
  h.of_eq rfl rfl

variable [DecidableEq Hash]

/-- The account at each address as the reads see it: the object `getStateObject` returns there, resolved. -/
def view (s : IntraBlockState Addr Hash) (addr : Addr) : Option (AccountView Hash) :=
  (s.getStateObject env addr).1.map (StateObject.view env s.stateReader)

/-- The account at an address not read yet, as the database has it, unless it is known to have none. -/
def unreadView (s : IntraBlockState Addr Hash) (addr : Addr) : Option (AccountView Hash) :=
  if s.nilAccounts addr then none
  else (s.stateReader.readAccountData addr).map fun account =>
    (StateObject.newObject env addr account account).view env s.stateReader

omit [DecidableEq Addr] in
theorem view_withIncrease (s : IntraBlockState Addr Hash) (addr : Addr) (object : StateObject Addr Hash)
    (reader : StateReader Addr Hash) :
    (s.withIncrease addr object).view env reader = (object.view env reader).addIncrease (s.pendingIncrease addr) := by
  rcases hbi : s.balanceInc addr with _ | bi
  · simp [withIncrease, pendingIncrease, hbi, AccountView.addIncrease]
  · cases ht : bi.transferred <;>
      simp [withIncrease, pendingIncrease, hbi, ht, AccountView.addIncrease, StateObject.view]

/-! ### How the primitives move the view -/

theorem createObject_fst_congr {s t : IntraBlockState Addr Hash} {addr : Addr}
    (h : t.balanceInc addr = s.balanceInc addr) (previous : Option (StateObject Addr Hash)) :
    (t.createObject env addr previous).1 = (s.createObject env addr previous).1 := by
  unfold createObject
  cases previous <;> exact withIncrease_congr h _

theorem createIfIncreased_fst_congr {s t : IntraBlockState Addr Hash} {addr : Addr}
    (h : t.balanceInc addr = s.balanceInc addr) :
    (t.createIfIncreased env addr).1 = (s.createIfIncreased env addr).1 := by
  unfold createIfIncreased
  rw [h]
  split
  · split
    · exact congrArg some (createObject_fst_congr env h none)
    · rfl
  · rfl

/-- The object `getStateObject` returns depends on the address's own entries of the maps only. -/
theorem getStateObject_fst_congr {s t : IntraBlockState Addr Hash} {addr : Addr}
    (hobj : t.stateObjects addr = s.stateObjects addr) (hnil : t.nilAccounts addr = s.nilAccounts addr)
    (hinc : t.balanceInc addr = s.balanceInc addr) (hreader : t.stateReader = s.stateReader) :
    (t.getStateObject env addr).1 = (s.getStateObject env addr).1 := by
  unfold getStateObject
  rw [hobj, hnil, hreader]
  split
  · rfl
  · split
    · exact createIfIncreased_fst_congr env hinc
    · split
      · exact createIfIncreased_fst_congr env hinc
      · exact congrArg some (withIncrease_congr hinc _)

theorem view_congr {s t : IntraBlockState Addr Hash} {addr : Addr}
    (hobj : t.stateObjects addr = s.stateObjects addr) (hnil : t.nilAccounts addr = s.nilAccounts addr)
    (hinc : t.balanceInc addr = s.balanceInc addr) (hreader : t.stateReader = s.stateReader) :
    t.view env addr = s.view env addr := by
  rw [view, view, getStateObject_fst_congr env hobj hnil hinc hreader, hreader]

theorem view_eq_of_accounts {s t : IntraBlockState Addr Hash} (hobj : t.stateObjects = s.stateObjects)
    (hnil : t.nilAccounts = s.nilAccounts) (hinc : t.balanceInc = s.balanceInc) (hreader : t.stateReader = s.stateReader) :
    t.view env = s.view env :=
  funext fun _ => view_congr env (congrFun hobj _) (congrFun hnil _) (congrFun hinc _) hreader

@[simp] theorem view_append (s : IntraBlockState Addr Hash) (e : JournalEntry Addr Hash) :
    (s.append e).view env = s.view env :=
  view_eq_of_accounts env rfl rfl rfl rfl

@[simp] theorem view_dirty (s : IntraBlockState Addr Hash) (addr : Addr) : (s.dirty addr).view env = s.view env :=
  view_eq_of_accounts env rfl rfl rfl rfl

theorem view_of_live {s : IntraBlockState Addr Hash} {addr : Addr} {so : StateObject Addr Hash}
    (hso : s.stateObjects addr = some so) : s.view env addr = some (so.view env s.stateReader) := by
  simp [view, getStateObject_of_live env hso]

/-- A write of a live object changes the view at its address only: a state that agrees with `s` off `addr`
and holds `so` live there has the view of `s` with `so` at `addr`. -/
theorem view_of_agree {s t : IntraBlockState Addr Hash} {addr : Addr} {so : StateObject Addr Hash}
    (hso : t.stateObjects addr = some so) (hreader : t.stateReader = s.stateReader)
    (hoff : ∀ b, b ≠ addr → t.stateObjects b = s.stateObjects b ∧ t.nilAccounts b = s.nilAccounts b ∧
      t.balanceInc b = s.balanceInc b) :
    t.view env = Function.update (s.view env) addr (some (so.view env s.stateReader)) := by
  funext b
  by_cases hb : b = addr
  · subst hb
    rw [Function.update_self, view_of_live env hso, hreader]
  · obtain ⟨hobj, hnil, hinc⟩ := hoff b hb
    rw [Function.update_of_ne hb, view_congr env hobj hnil hinc hreader]

theorem view_writeObject (s : IntraBlockState Addr Hash) (addr : Addr) (object : StateObject Addr Hash) :
    (s.writeObject addr object).view env = Function.update (s.view env) addr (some (object.view env s.stateReader)) :=
  view_of_agree env (by simp) rfl fun _ hb => ⟨by simp [Function.update_of_ne hb], rfl, rfl⟩

theorem view_setStateObject (s : IntraBlockState Addr Hash) (addr : Addr) (object : StateObject Addr Hash) :
    (s.setStateObject addr object).view env =
      Function.update (s.view env) addr (some ((s.withIncrease addr object).view env s.stateReader)) :=
  view_of_agree env (by simp [setStateObject_stateObjects]) (setStateObject_stateReader s addr object) fun _ hb =>
    ⟨by simp [setStateObject_stateObjects, Function.update_of_ne hb], by rw [setStateObject_nilAccounts],
      by simp [setStateObject_balanceInc, Function.update_of_ne hb]⟩

theorem view_createObject (s : IntraBlockState Addr Hash) (addr : Addr) (previous : Option (StateObject Addr Hash)) :
    (s.createObject env addr previous).2.view env =
      Function.update (s.view env) addr (some ((s.createObject env addr previous).1.view env s.stateReader)) := by
  unfold createObject
  cases previous <;> simp only [view_setStateObject, view_append] <;> rfl

/-- The object `createObject` makes is new, with the increase waiting for it. -/
theorem createObject_fst_view (s : IntraBlockState Addr Hash) (addr : Addr) (previous : Option (StateObject Addr Hash)) :
    (s.createObject env addr previous).1.view env s.stateReader =
      (AccountView.fresh env s.stateReader addr 0).addIncrease (s.pendingIncrease addr) := by
  unfold createObject
  cases previous <;>
  · simp only [view_withIncrease, pendingIncrease_append]
    congr 1
    simp [StateObject.view, StateObject.newObject, StateObject.setNonce, StateAccount.zero, AccountView.fresh]

theorem createObject_fst_of_pendingIncrease {s : IntraBlockState Addr Hash} {addr : Addr}
    (h : s.pendingIncrease addr = none) (previous : Option (StateObject Addr Hash)) :
    ∃ original, (s.createObject env addr previous).1 =
      (StateObject.newObject env addr (StateAccount.zero env.zeroHash) original).setNonce 0 := by
  unfold createObject
  cases previous <;> exact ⟨_, withIncrease_of_pendingIncrease h _⟩


/-! ### What a lookup can do -/

/-- `createIfIncreased` makes an account only where an increase waits. -/
theorem createIfIncreased_cases (s : IntraBlockState Addr Hash) (addr : Addr) :
    (s.pendingIncrease addr = none ∧ s.createIfIncreased env addr = (none, s)) ∨
    (∃ increase, s.pendingIncrease addr = some increase ∧
      s.createIfIncreased env addr = (some (s.createObject env addr none).1, (s.createObject env addr none).2)) := by
  unfold createIfIncreased pendingIncrease
  rcases hbi : s.balanceInc addr with _ | bi
  · exact .inl ⟨rfl, rfl⟩
  · cases ht : bi.transferred
    · exact .inr ⟨bi.increase, by simp [ht], by simp [ht]⟩
    · exact .inl ⟨by simp [ht], by simp [ht]⟩

/-- `getStateObject` returns the live object; or, for an address known to have no account, what
`createIfIncreased` returns; or, for one the database has none for, the same once the address is marked; or
the database's account, made live. -/
theorem getStateObject_cases (s : IntraBlockState Addr Hash) (addr : Addr) :
    (∃ obj, s.stateObjects addr = some obj ∧ s.getStateObject env addr = (some obj, s)) ∨
    (s.stateObjects addr = none ∧ s.nilAccounts addr = true ∧
      s.getStateObject env addr = s.createIfIncreased env addr) ∨
    (s.stateObjects addr = none ∧ s.nilAccounts addr = false ∧ s.stateReader.readAccountData addr = none ∧
      s.getStateObject env addr =
        { s with nilAccounts := Function.update s.nilAccounts addr true }.createIfIncreased env addr) ∨
    (∃ account, s.stateObjects addr = none ∧ s.nilAccounts addr = false ∧
      s.stateReader.readAccountData addr = some account ∧
      s.getStateObject env addr =
        (some (s.withIncrease addr (StateObject.newObject env addr account account)),
          s.setStateObject addr (StateObject.newObject env addr account account))) := by
  rcases hlive : s.stateObjects addr with _ | obj
  · cases hnil : s.nilAccounts addr
    · rcases hread : s.stateReader.readAccountData addr with _ | account
      · exact .inr (.inr (.inl ⟨rfl, rfl, rfl, by simp [getStateObject, hlive, hnil, hread]⟩))
      · exact .inr (.inr (.inr ⟨account, rfl, rfl, rfl, getStateObject_of_read env hlive hnil hread⟩))
    · exact .inr (.inl ⟨rfl, rfl, by simp [getStateObject, hlive, hnil]⟩)
  · exact .inl ⟨obj, rfl, getStateObject_of_live env hlive⟩

theorem createObject_stateReader (s : IntraBlockState Addr Hash) (addr : Addr)
    (previous : Option (StateObject Addr Hash)) : (s.createObject env addr previous).2.stateReader = s.stateReader := by
  unfold createObject
  cases previous <;> exact setStateObject_stateReader _ _ _

theorem createIfIncreased_stateReader (s : IntraBlockState Addr Hash) (addr : Addr) :
    (s.createIfIncreased env addr).2.stateReader = s.stateReader := by
  rcases createIfIncreased_cases env s addr with ⟨-, h⟩ | ⟨_, -, h⟩ <;> rw [h]
  exact createObject_stateReader env s addr none

theorem getStateObject_stateReader (s : IntraBlockState Addr Hash) (addr : Addr) :
    (s.getStateObject env addr).2.stateReader = s.stateReader := by
  rcases getStateObject_cases env s addr with ⟨_, -, h⟩ | ⟨-, -, h⟩ | ⟨-, -, -, h⟩ | ⟨_, -, -, -, h⟩ <;> rw [h]
  · exact createIfIncreased_stateReader env s addr
  · exact createIfIncreased_stateReader env _ addr
  · exact setStateObject_stateReader _ _ _

/-! ### The invariant -/

omit [DecidableEq Hash] in
theorem ViewInv.setStateObject {s : IntraBlockState Addr Hash} (h : ViewInv s) {addr : Addr}
    {object : StateObject Addr Hash} (ho : StateObject.ObjectInv object) : ViewInv (s.setStateObject addr object) := by
  refine ⟨fun b so hso => ?_, fun b bi hbi => ?_⟩
  · rw [setStateObject_stateObjects] at hso
    by_cases hb : b = addr
    · subst hb
      simp only [Function.update_self, Option.some.injEq] at hso
      exact hso ▸ objectInv_withIncrease s b ho
    · exact h.objects b so (by simpa [Function.update_of_ne hb] using hso)
  · rw [setStateObject_balanceInc] at hbi
    rw [setStateObject_stateObjects]
    by_cases hb : b = addr
    · -- the increase at `addr`, if any, is now transferred and its object live
      subst hb
      simp only [Function.update_self, Option.map_eq_some_iff] at hbi
      obtain ⟨_, -, rfl⟩ := hbi
      simp
    · simpa [Function.update_of_ne hb] using h.transferred b bi (by simpa [Function.update_of_ne hb] using hbi)

theorem ViewInv.createObject {s : IntraBlockState Addr Hash} (h : ViewInv s) (addr : Addr)
    (previous : Option (StateObject Addr Hash)) : ViewInv (s.createObject env addr previous).2 := by
  unfold IntraBlockState.createObject
  cases previous <;> exact (h.append _).setStateObject ⟨rfl, fun _ _ => rfl⟩

theorem ViewInv.createIfIncreased {s : IntraBlockState Addr Hash} (h : ViewInv s) (addr : Addr) :
    ViewInv (s.createIfIncreased env addr).2 := by
  rcases createIfIncreased_cases env s addr with ⟨-, hc⟩ | ⟨_, -, hc⟩ <;> rw [hc]
  · exact h
  · exact h.createObject env addr none

theorem ViewInv.getStateObject {s : IntraBlockState Addr Hash} (h : ViewInv s) (addr : Addr) :
    ViewInv (s.getStateObject env addr).2 := by
  rcases getStateObject_cases env s addr with ⟨_, -, hg⟩ | ⟨-, -, hg⟩ | ⟨-, -, -, hg⟩ | ⟨_, -, -, -, hg⟩ <;> rw [hg]
  · exact h
  · exact h.createIfIncreased env addr
  · exact (h.of_eq (t := { s with nilAccounts := Function.update s.nilAccounts addr true }) rfl rfl).createIfIncreased env addr
  · exact h.setStateObject (StateObject.objectInv_newObject env _ _ _)

/-- A lookup that finds no account leaves no increase waiting; one that finds an account leaves it live. -/
theorem pendingIncrease_getStateObject {s : IntraBlockState Addr Hash} (h : ViewInv s) (addr : Addr) :
    (s.getStateObject env addr).2.pendingIncrease addr = none := by
  rcases hso : (s.getStateObject env addr).1 with _ | so
  · -- the lookups that return none are those with no increase waiting
    rcases getStateObject_cases env s addr with ⟨_, -, hg⟩ | ⟨-, -, hg⟩ | ⟨-, -, -, hg⟩ | ⟨_, -, -, -, hg⟩ <;>
      rw [hg] at hso ⊢
    · cases hso
    · rcases createIfIncreased_cases env s addr with ⟨hp, hc⟩ | ⟨_, -, hc⟩ <;> rw [hc] at hso ⊢
      · exact hp
      · cases hso
    · rcases createIfIncreased_cases env { s with nilAccounts := Function.update s.nilAccounts addr true } addr with
        ⟨hp, hc⟩ | ⟨_, -, hc⟩ <;> rw [hc] at hso ⊢
      · exact hp
      · cases hso
    · cases hso
  · have hlive := getStateObject_stateObjects env s addr
    rw [hso] at hlive
    exact pendingIncrease_of_live (h.getStateObject env addr) hlive

/-! ### The view of a lookup -/

/-- Where a lookup makes an object live, it is the object the view reads there. -/
theorem view_eq_of_update {s t : IntraBlockState Addr Hash} {addr : Addr} {so : StateObject Addr Hash}
    (ht : t.view env = Function.update (s.view env) addr (some (so.view env s.stateReader)))
    (hs : s.view env addr = some (so.view env s.stateReader)) : t.view env = s.view env := by
  rw [ht, ← hs, Function.update_eq_self]

theorem view_createIfIncreased_of_nil {s : IntraBlockState Addr Hash} {addr : Addr}
    (hlive : s.stateObjects addr = none) (hnil : s.nilAccounts addr = true) :
    (s.createIfIncreased env addr).2.view env = s.view env := by
  have hview : s.view env addr = (s.createIfIncreased env addr).1.map (StateObject.view env s.stateReader) := by
    simp [view, getStateObject, hlive, hnil]
  rcases createIfIncreased_cases env s addr with ⟨-, hc⟩ | ⟨_, -, hc⟩ <;> rw [hc] at hview ⊢
  exact view_eq_of_update env (view_createObject env s addr none) hview

/-- Marking an address the database has no account for changes no view. -/
theorem view_markNil {s : IntraBlockState Addr Hash} {addr : Addr} (hlive : s.stateObjects addr = none)
    (hnil : s.nilAccounts addr = false) (hread : s.stateReader.readAccountData addr = none) :
    { s with nilAccounts := Function.update s.nilAccounts addr true }.view env = s.view env := by
  funext b
  by_cases hb : b = addr
  · subst hb
    simp [view, getStateObject, hlive, hnil, hread]
  · exact view_congr env rfl (Function.update_of_ne hb _ _) rfl rfl

/-- A lookup changes no view. -/
theorem view_getStateObject (s : IntraBlockState Addr Hash) (addr : Addr) :
    (s.getStateObject env addr).2.view env = s.view env := by
  have hview : s.view env addr = (s.getStateObject env addr).1.map (StateObject.view env s.stateReader) := rfl
  rcases getStateObject_cases env s addr with ⟨_, -, hg⟩ | ⟨hlive, hnil, hg⟩ | ⟨hlive, hnil, hread, hg⟩ |
    ⟨_, -, -, -, hg⟩ <;> rw [hg] at hview ⊢
  · exact view_createIfIncreased_of_nil env hlive hnil
  · rw [view_createIfIncreased_of_nil env (s := { s with nilAccounts := Function.update s.nilAccounts addr true })
      hlive (Function.update_self _ _ _), view_markNil env hlive hnil hread]
  · exact view_eq_of_update env (view_setStateObject env s addr _) hview

/-- What a lookup at `addr` that returned `o` and left `t` gives: the view as it was, with `o` live in `t`
and no increase waiting at `addr`. -/
structure Lookup (s t : IntraBlockState Addr Hash) (addr : Addr) (o : Option (StateObject Addr Hash)) : Prop where
  inv : ViewInv t
  reader : t.stateReader = s.stateReader
  view : t.view env = s.view env
  pending : t.pendingIncrease addr = none
  live : t.stateObjects addr = o
  found : s.view env addr = o.map (StateObject.view env s.stateReader)

theorem lookup_getStateObject {s t : IntraBlockState Addr Hash} (h : ViewInv s) {addr : Addr}
    {o : Option (StateObject Addr Hash)} (hg : s.getStateObject env addr = (o, t)) : Lookup env s t addr o := by
  have hinv := h.getStateObject env addr
  have hreader := getStateObject_stateReader env s addr
  have hview := view_getStateObject env s addr
  have hpending := pendingIncrease_getStateObject env h addr
  have hlive := getStateObject_stateObjects env s addr
  rw [hg] at hinv hreader hview hpending hlive
  exact ⟨hinv, hreader, hview, hpending, hlive, by simp [view, hg]⟩

/-- The account at an address not read yet: the database's, or none if the address is known to have none,
with the increase waiting for it. -/
theorem view_of_unread {s : IntraBlockState Addr Hash} {addr : Addr} (hlive : s.stateObjects addr = none) :
    s.view env addr =
      AccountView.withPending env s.stateReader addr (s.unreadView env addr) (s.pendingIncrease addr) := by
  have hview : s.view env addr = (s.getStateObject env addr).1.map (StateObject.view env s.stateReader) := rfl
  -- an address with no account in the database, known or not: an increase makes one
  have hnone : ∀ t : IntraBlockState Addr Hash, t.stateReader = s.stateReader →
      t.pendingIncrease addr = s.pendingIncrease addr →
      (t.createIfIncreased env addr).1.map (StateObject.view env s.stateReader) =
        AccountView.withPending env s.stateReader addr none (s.pendingIncrease addr) := by
    intro t hreader hpending
    rcases createIfIncreased_cases env t addr with ⟨hp, hc⟩ | ⟨_, hp, hc⟩ <;> rw [hc, ← hpending, hp]
    · rfl
    · simp [← hreader, createObject_fst_view, hp, AccountView.withPending]
  rcases getStateObject_cases env s addr with ⟨_, hl, -⟩ | ⟨-, hnil, hg⟩ | ⟨-, hnil, hread, hg⟩ |
    ⟨account, -, hnil, hread, hg⟩
  · rw [hl] at hlive
    cases hlive
  · rw [hg] at hview
    rw [hview, hnone s rfl rfl]
    simp [unreadView, hnil]
  · rw [hg] at hview
    rw [hview, hnone { s with nilAccounts := Function.update s.nilAccounts addr true } rfl rfl]
    simp [unreadView, hnil, hread]
  · rw [hg] at hview
    rw [hview]
    simp [unreadView, hnil, hread, view_withIncrease, AccountView.withPending]

/-! ### A write of the account at an address -/

/-- `t` is `s` after a step that leaves the view `w`, with the caches still coherent. -/
structure Moves (s t : IntraBlockState Addr Hash) (w : Addr → Option (AccountView Hash)) : Prop where
  inv : ViewInv t
  reader : t.stateReader = s.stateReader
  view : t.view env = w

/-- Two writes of the account at one address: the second one's account is left. -/
theorem Moves.update_trans {s t u : IntraBlockState Addr Hash} {addr : Addr} {acc acc' : AccountView Hash}
    (h₁ : Moves env s t (Function.update (s.view env) addr (some acc)))
    (h₂ : Moves env t u (Function.update (t.view env) addr (some acc'))) :
    Moves env s u (Function.update (s.view env) addr (some acc')) :=
  ⟨h₂.inv, h₂.reader.trans h₁.reader, by rw [h₂.view, h₁.view, Function.update_idem]⟩

/-- `GetOrNewStateObject` returns the object a lookup finds, or makes a new one where it finds none or a deleted
one. -/
theorem getOrNewStateObject_cases (s : IntraBlockState Addr Hash) (addr : Addr) :
    (∃ obj t, s.getStateObject env addr = (some obj, t) ∧ obj.deleted = false ∧
      s.getOrNewStateObject env addr = (obj, t)) ∨
    (∃ o t, s.getStateObject env addr = (o, t) ∧ (∀ obj, o = some obj → obj.deleted = true) ∧
      s.getOrNewStateObject env addr = t.createObject env addr o) := by
  unfold getOrNewStateObject
  rcases hs : s.getStateObject env addr with ⟨_ | obj, t⟩
  · exact .inr ⟨none, t, rfl, (fun _ h => by cases h), rfl⟩
  · cases hd : obj.deleted
    · exact .inl ⟨obj, t, rfl, hd, by simp [hd]⟩
    · exact .inr ⟨some obj, t, rfl, (fun _ h => by cases h; exact hd), by simp [hd]⟩

/-- `GetOrNewStateObject` leaves live, and in the view, the account a write starts from. -/
theorem getOrNewStateObject_spec {s t : IntraBlockState Addr Hash} (h : ViewInv s) {addr : Addr}
    {so : StateObject Addr Hash} (hg : s.getOrNewStateObject env addr = (so, t)) :
    Moves env s t (Function.update (s.view env) addr (some (so.view env s.stateReader))) ∧
      t.stateObjects addr = some so ∧
      so.view env s.stateReader = AccountView.getOrNew env s.stateReader addr (s.view env addr) := by
  have hlive := getOrNewStateObject_stateObjects env s addr
  rw [hg] at hlive
  rcases getOrNewStateObject_cases env s addr with ⟨obj, t₁, hs, hd, hn⟩ | ⟨o, t₁, hs, hd, hn⟩ <;>
    have hl := lookup_getStateObject env h hs <;> rw [hg] at hn
  · -- the account found
    obtain ⟨rfl, rfl⟩ := Prod.mk.inj hn
    refine ⟨⟨hl.inv, hl.reader, ?_⟩, hlive, ?_⟩
    · rw [hl.view, ← Option.map_some, ← hl.found, Function.update_eq_self]
    · simp [hl.found, AccountView.getOrNew, StateObject.view, hd]
  · -- a new account, in place of none or a deleted one
    have hso : so = (t₁.createObject env addr o).1 := by rw [← hn]
    have ht : t = (t₁.createObject env addr o).2 := by rw [← hn]
    subst hso ht
    refine ⟨⟨hl.inv.createObject env addr o, ?_, ?_⟩, hlive, ?_⟩
    · rw [createObject_stateReader, hl.reader]
    · rw [view_createObject, hl.view, hl.reader]
    · rw [← hl.reader, createObject_fst_view, hl.pending, hl.reader, hl.found]
      rcases o with _ | obj
      · rfl
      · simp [AccountView.getOrNew, StateObject.view, hd obj rfl, AccountView.addIncrease]

/-! ### The writes of a live object -/

section Live

variable {t : IntraBlockState Addr Hash} {addr : Addr} {so : StateObject Addr Hash}

omit [DecidableEq Hash] in
theorem ViewInv.touch (h : ViewInv t) (so : StateObject Addr Hash) : ViewInv (t.touch env so) := by
  unfold IntraBlockState.touch
  split_ifs
  · exact (h.append _).dirty _
  · exact h.append _

omit [DecidableEq Hash] in
theorem touch_stateReader (t : IntraBlockState Addr Hash) (so : StateObject Addr Hash) :
    (t.touch env so).stateReader = t.stateReader := by
  unfold touch
  split_ifs <;> rfl

@[simp] theorem view_touch (t : IntraBlockState Addr Hash) (so : StateObject Addr Hash) :
    (t.touch env so).view env = t.view env := by
  unfold touch
  split_ifs <;> simp

/-- A step that leaves the view as it was: the object live at `addr` stays the account there. -/
theorem moves_of_view (hso : t.stateObjects addr = some so) {u : IntraBlockState Addr Hash} (hu : ViewInv u)
    (hreader : u.stateReader = t.stateReader) (hview : u.view env = t.view env) :
    Moves env t u (Function.update (t.view env) addr (some (so.view env t.stateReader))) :=
  ⟨hu, hreader, by rw [hview, ← view_of_live env hso, Function.update_eq_self]⟩

theorem moves_writeObject (h : ViewInv t) (hso : t.stateObjects addr = some so) {object : StateObject Addr Hash}
    (ho : StateObject.ObjectInv object) :
    Moves env t (t.writeObject addr object) (Function.update (t.view env) addr (some (object.view env t.stateReader))) :=
  ⟨h.writeObject (by simp [hso]) ho, rfl, view_writeObject env t addr object⟩

theorem moves_appendWrite (h : ViewInv t) (hso : t.stateObjects addr = some so) (e : JournalEntry Addr Hash)
    {object : StateObject Addr Hash} (ho : StateObject.ObjectInv object) :
    Moves env t ((t.append e).writeObject addr object)
      (Function.update (t.view env) addr (some (object.view env t.stateReader))) :=
  ⟨(h.append e).writeObject (by simp [hso]) ho, rfl, by rw [view_writeObject, view_append]; rfl⟩

theorem moves_objectSetBalance (h : ViewInv t) (hso : t.stateObjects addr = some so) (amount : BitVec 256) :
    Moves env t (t.objectSetBalance addr so amount)
      (Function.update (t.view env) addr (some { so.view env t.stateReader with balance := amount })) :=
  moves_appendWrite env h hso _ ⟨(h.objects addr so hso).fakeStorage, (h.objects addr so hso).created⟩

/-- `stateObject.AddBalance`: adding nothing only touches the account. -/
theorem moves_objectAddBalance (h : ViewInv t) (hso : t.stateObjects addr = some so) (amount : BitVec 256) :
    Moves env t (t.objectAddBalance env addr so amount)
      (Function.update (t.view env) addr
        (some { so.view env t.stateReader with balance := (so.view env t.stateReader).balance + amount })) := by
  unfold objectAddBalance
  split_ifs with h0
  · subst h0
    rw [AccountView.add_zero_balance]
    exact moves_of_view env hso (h.touch env so) (touch_stateReader env t so) (view_touch env t so)
  · subst h0
    rw [AccountView.add_zero_balance]
    exact moves_of_view env hso h rfl rfl
  · exact moves_objectSetBalance env h hso _

theorem moves_objectSubBalance (h : ViewInv t) (hso : t.stateObjects addr = some so) (amount : BitVec 256) :
    Moves env t (t.objectSubBalance addr so amount)
      (Function.update (t.view env) addr
        (some { so.view env t.stateReader with balance := (so.view env t.stateReader).balance - amount })) := by
  unfold objectSubBalance
  split_ifs with h0
  · subst h0
    rw [AccountView.sub_zero_balance]
    exact moves_of_view env hso h rfl rfl
  · exact moves_objectSetBalance env h hso _

theorem moves_objectSetNonce (h : ViewInv t) (hso : t.stateObjects addr = some so) (nonce : UInt64) :
    Moves env t (t.objectSetNonce addr so nonce)
      (Function.update (t.view env) addr (some { so.view env t.stateReader with nonce })) :=
  moves_appendWrite env h hso _ ⟨(h.objects addr so hso).fakeStorage, (h.objects addr so hso).created⟩

/-- `stateObject.SetCode` loads the code it replaces, which changes no view. -/
theorem moves_objectSetCode (h : ViewInv t) (hso : t.stateObjects addr = some so) (codeHash : Hash)
    (code : List UInt8) :
    Moves env t (t.objectSetCode env addr so codeHash code)
      (Function.update (t.view env) addr (some { so.view env t.stateReader with codeHash, code := some code })) := by
  have ho := (h.objects addr so hso).loadCode env t.stateReader
  have hm := moves_appendWrite env h hso (.codeChange (so.loadCode env t.stateReader).2.address
    (so.loadCode env t.stateReader).1 (so.loadCode env t.stateReader).2.data.codeHash)
    (⟨ho.fakeStorage, ho.created⟩ :
      StateObject.ObjectInv ((so.loadCode env t.stateReader).2.setCode codeHash (some code)))
  rw [show ((so.loadCode env t.stateReader).2.setCode codeHash (some code)).view env t.stateReader =
      { (so.loadCode env t.stateReader).2.view env t.stateReader with codeHash, code := some code } from rfl,
    StateObject.view_loadCode] at hm
  exact hm

/-- `stateObject.SetState` reads the value it replaces, which changes no view, and writes only a new value. -/
theorem moves_objectSetState (h : ViewInv t) (hso : t.stateObjects addr = some so) (key : Hash)
    (value : BitVec 256) :
    Moves env t (t.objectSetState addr so key value)
      (Function.update (t.view env) addr
        (some (AccountView.setState key value (so.view env t.stateReader)))) := by
  have ho := h.objects addr so hso
  have ho' := ho.getState t.stateReader key
  have hprev := StateObject.getState_fst_view env t.stateReader ho key
  have hload := StateObject.view_getState env t.stateReader so key
  unfold objectSetState
  rw [ho.fakeStorage]
  dsimp only
  split_ifs with hv
  · have hm := moves_writeObject env h hso ho'
    rw [hload] at hm
    rwa [AccountView.setState, if_pos (hprev ▸ hv)]
  · have hm := moves_appendWrite env h hso (.storageChange (so.getState t.stateReader key).2.address key
      (so.getState t.stateReader key).1)
      (⟨ho'.fakeStorage, ho'.created⟩ : StateObject.ObjectInv ((so.getState t.stateReader key).2.setState key value))
    rw [show ((so.getState t.stateReader key).2.setState key value).view env t.stateReader =
        { (so.getState t.stateReader key).2.view env t.stateReader with
          dirty := Function.update ((so.getState t.stateReader key).2.view env t.stateReader).dirty key (some value) }
        from rfl, hload] at hm
    rwa [AccountView.setState, if_neg (hprev ▸ hv)]

end Live

/-! ### The calls -/

/-- A setter: the lookup of `GetOrNewStateObject`, then a write of the object it returns. -/
theorem moves_getOrNew {s : IntraBlockState Addr Hash} (h : ViewInv s) (addr : Addr)
    (f : AccountView Hash → AccountView Hash)
    (op : StateObject Addr Hash → IntraBlockState Addr Hash → IntraBlockState Addr Hash)
    (hop : ∀ so t, ViewInv t → t.stateObjects addr = some so →
      Moves env t (op so t) (Function.update (t.view env) addr (some (f (so.view env t.stateReader))))) :
    Moves env s (op (s.getOrNewStateObject env addr).1 (s.getOrNewStateObject env addr).2)
      (AccountView.write env s.stateReader (s.view env) addr f) := by
  rcases hg : s.getOrNewStateObject env addr with ⟨so, t⟩
  obtain ⟨hm, hlive, hv⟩ := getOrNewStateObject_spec env h hg
  have hw := hop so t hm.inv hlive
  rw [hm.reader] at hw
  rw [AccountView.write, ← hv]
  exact hm.update_trans env hw

theorem moves_of_accounts {s t : IntraBlockState Addr Hash} (h : ViewInv s) (hobj : t.stateObjects = s.stateObjects)
    (hnil : t.nilAccounts = s.nilAccounts) (hinc : t.balanceInc = s.balanceInc)
    (hreader : t.stateReader = s.stateReader) : Moves env s t (s.view env) :=
  ⟨h.of_eq hobj hinc, hreader, view_eq_of_accounts env hobj hnil hinc hreader⟩

omit [DecidableEq Addr] in
theorem unreadView_deleted {s : IntraBlockState Addr Hash} {addr : Addr} {acc : AccountView Hash}
    (h : s.unreadView env addr = some acc) : acc.deleted = false := by
  unfold unreadView at h
  split_ifs at h
  obtain ⟨_, -, rfl⟩ := Option.map_eq_some_iff.mp h
  rfl

/-- The lazy `AddBalance` of an account not live: the increase waits in `balanceInc`, and the view has it
already. -/
theorem moves_addBalance_unread {s u : IntraBlockState Addr Hash} (h : ViewInv s) {addr : Addr}
    (hlive : s.stateObjects addr = none) {amount : BitVec 256} {bi : BalanceIncrease}
    (hbi : bi = (s.balanceInc addr).getD ⟨0, false, 0⟩) (hobj : u.stateObjects = s.stateObjects)
    (hnil : u.nilAccounts = s.nilAccounts) (hreader : u.stateReader = s.stateReader)
    (hinc : u.balanceInc = Function.update s.balanceInc addr
      (some { bi with increase := bi.increase + amount, count := bi.count + 1 })) :
    Moves env s u
      (AccountView.write env s.stateReader (s.view env) addr fun acc => { acc with balance := acc.balance + amount }) := by
  -- an increase waiting for an account not live is not transferred
  have htr : bi.transferred = false := by
    rcases hb : s.balanceInc addr with _ | bi'
    · simp [hbi, hb]
    · simpa [hbi, hb, hlive] using h.transferred addr bi' hb
  have hpending : u.pendingIncrease addr = some ((s.pendingIncrease addr).getD 0 + amount) := by
    rcases hb : s.balanceInc addr with _ | bi'
    · simp [pendingIncrease, hinc, hbi, hb]
    · have htr' : bi'.transferred = false := by simpa [hbi, hb] using htr
      simp [pendingIncrease, hinc, hbi, hb, htr']
  have hulive : u.stateObjects addr = none := by rw [hobj, hlive]
  refine ⟨⟨fun b so hso => h.objects b so (hobj ▸ hso), fun b bi' hbi' => ?_⟩, hreader, ?_⟩
  · rw [hobj]
    by_cases hb : b = addr
    · subst hb
      rw [hinc, Function.update_self, Option.some.injEq] at hbi'
      rw [← hbi', hlive]
      exact htr
    · rw [hinc, Function.update_of_ne hb] at hbi'
      exact h.transferred b bi' hbi'
  · funext b
    by_cases hb : b = addr
    · subst hb
      have hunread : u.unreadView env b = s.unreadView env b := by simp only [unreadView, hnil, hreader]
      rw [AccountView.write, Function.update_self, view_of_unread env hulive, view_of_unread env hlive, hpending,
        hunread, hreader]
      exact AccountView.withPending_addIncrease env s.stateReader (fun _ => unreadView_deleted env) _ amount
    · rw [AccountView.write, Function.update_of_ne hb]
      exact view_congr env (congrFun hobj b) (congrFun hnil b) (by rw [hinc, Function.update_of_ne hb]) hreader

/-- `AddBalance` adds to the balance of the account a write starts from, whether or not it reads the account. -/
theorem moves_addBalance {s : IntraBlockState Addr Hash} (h : ViewInv s) (addr : Addr) (amount : BitVec 256) :
    Moves env s (s.addBalance env addr amount)
      (AccountView.write env s.stateReader (s.view env) addr fun acc => { acc with balance := acc.balance + amount }) := by
  unfold addBalance
  dsimp only
  split_ifs with hneed
  · -- the account is not live, and no touch of `ripemd` needs it
    have hlive : s.stateObjects addr = none := by
      simp only [Bool.not_eq_true', Bool.or_eq_false_iff, Option.isSome_eq_false_iff] at hneed
      exact Option.isNone_iff_eq_none.mp hneed.1
    exact moves_addBalance_unread env h hlive rfl rfl rfl rfl rfl
  · exact moves_getOrNew env h addr _ (fun so t => t.objectAddBalance env addr so amount)
      fun _ _ ht hso => moves_objectAddBalance env ht hso amount

theorem moves_subBalance {s : IntraBlockState Addr Hash} (h : ViewInv s) (addr : Addr) (amount : BitVec 256) :
    Moves env s (s.subBalance env addr amount)
      (AccountView.write env s.stateReader (s.view env) addr fun acc => { acc with balance := acc.balance - amount }) :=
  moves_getOrNew env h addr _ (fun so t => t.objectSubBalance addr so amount)
    fun _ _ ht hso => moves_objectSubBalance env ht hso amount

theorem moves_setBalance {s : IntraBlockState Addr Hash} (h : ViewInv s) (addr : Addr) (amount : BitVec 256) :
    Moves env s (s.setBalance env addr amount)
      (AccountView.write env s.stateReader (s.view env) addr fun acc => { acc with balance := amount }) :=
  moves_getOrNew env h addr _ (fun so t => t.objectSetBalance addr so amount)
    fun _ _ ht hso => moves_objectSetBalance env ht hso amount

theorem moves_setNonce {s : IntraBlockState Addr Hash} (h : ViewInv s) (addr : Addr) (nonce : UInt64) :
    Moves env s (s.setNonce env addr nonce)
      (AccountView.write env s.stateReader (s.view env) addr fun acc => { acc with nonce }) :=
  moves_getOrNew env h addr _ (fun so t => t.objectSetNonce addr so nonce)
    fun _ _ ht hso => moves_objectSetNonce env ht hso nonce

theorem moves_setCode {s : IntraBlockState Addr Hash} (h : ViewInv s) (addr : Addr) (code : List UInt8) :
    Moves env s (s.setCode env addr code)
      (AccountView.write env s.stateReader (s.view env) addr
        fun acc => { acc with codeHash := env.keccak256Hash code, code := some code }) :=
  moves_getOrNew env h addr _ (fun so t => t.objectSetCode env addr so (env.keccak256Hash code) code)
    fun _ _ ht hso => moves_objectSetCode env ht hso _ code

theorem moves_setState {s : IntraBlockState Addr Hash} (h : ViewInv s) (addr : Addr) (key : Hash)
    (value : BitVec 256) :
    Moves env s (s.setState env addr key value)
      (AccountView.write env s.stateReader (s.view env) addr (AccountView.setState key value)) :=
  moves_getOrNew env h addr _ (fun so t => t.objectSetState addr so key value)
    fun _ _ ht hso => moves_objectSetState env ht hso key value

/-- `CreateAccount`: a new account in place of the one the lookup finds, with its balance. -/
theorem moves_createAccount {s : IntraBlockState Addr Hash} (h : ViewInv s) (addr : Addr) (contractCreation : Bool) :
    Moves env s (s.createAccount env addr contractCreation)
      (Function.update (s.view env) addr
        (some (AccountView.createAccount env s.stateReader addr contractCreation (s.view env addr)))) := by
  rcases hg : s.getStateObject env addr with ⟨previous, t⟩
  have hl := lookup_getStateObject env h hg
  rcases hc : t.createObject env addr previous with ⟨newObj, u⟩
  -- no increase waits at `addr` after the lookup, so the object made is a plain new one
  obtain ⟨original, hnew⟩ := createObject_fst_of_pendingIncrease env hl.pending previous
  rw [hc] at hnew
  have hinv : ViewInv u := by simpa [hc] using hl.inv.createObject env addr previous
  have hlive : u.stateObjects addr = some newObj := by simpa [hc] using createObject_stateObjects env t addr previous
  have hreader : u.stateReader = s.stateReader := by
    rw [← hl.reader, ← createObject_stateReader env t addr previous, hc]
  have hview : u.view env = Function.update (s.view env) addr (some (newObj.view env s.stateReader)) := by
    have hv := view_createObject env t addr previous
    rw [hc] at hv
    rw [hv, hl.view, hl.reader]
  simp only [createAccount, hg, hc]
  subst hnew
  refine ⟨hinv.writeObject (by simp [hlive]) ?_, by simpa using hreader, ?_⟩
  · cases previous <;> cases contractCreation <;> exact ⟨rfl, fun _ _ => rfl⟩
  · rw [view_writeObject, hview, Function.update_idem, hreader, hl.found, hl.reader]
    congr 2
    cases previous <;> cases contractCreation <;>
      simp [StateObject.view, StateObject.newObject, StateObject.setNonce, StateAccount.zero,
        AccountView.createAccount, AccountView.fresh]

/-- `Selfdestruct`: the account the lookup finds, if it is not deleted, destructs. -/
theorem moves_selfdestruct {s : IntraBlockState Addr Hash} (h : ViewInv s) (addr : Addr) :
    Moves env s (s.selfdestruct env addr).2 (AccountView.selfdestruct (s.view env) addr) := by
  rcases hg : s.getStateObject env addr with ⟨_ | so, t⟩ <;> have hl := lookup_getStateObject env h hg
  · simp only [selfdestruct, hg, AccountView.selfdestruct, hl.found, Option.map_none]
    exact ⟨hl.inv, hl.reader, hl.view⟩
  · have ho := hl.inv.objects addr so hl.live
    simp only [selfdestruct, hg, AccountView.selfdestruct, hl.found, Option.map_some]
    rw [show (so.view env s.stateReader).deleted = so.deleted from rfl]
    by_cases hd : so.deleted
    · rw [if_pos hd, if_pos hd]
      exact ⟨hl.inv, hl.reader, hl.view⟩
    · rw [if_neg hd, if_neg hd]
      have hm := moves_appendWrite env hl.inv hl.live (.selfdestructChange addr so.selfdestructed so.data.balance)
        (⟨ho.fakeStorage, fun hc => by cases hc⟩ : StateObject.ObjectInv
          { so with selfdestructed := true, created := false, data := { so.data with balance := 0 } })
      rw [hl.view, hl.reader] at hm
      exact ⟨hm.inv, hm.reader.trans hl.reader, hm.view⟩

/-! ### The reads -/

theorem getBalance_snd (s : IntraBlockState Addr Hash) (addr : Addr) :
    (s.getBalance env addr).2 = (s.getStateObject env addr).2 := by
  unfold getBalance
  split <;> rename_i hg <;> rw [hg]

theorem getNonce_snd (s : IntraBlockState Addr Hash) (addr : Addr) :
    (s.getNonce env addr).2 = (s.getStateObject env addr).2 := by
  unfold getNonce
  split <;> rename_i hg <;> rw [hg]

theorem exist_snd (s : IntraBlockState Addr Hash) (addr : Addr) :
    (s.exist env addr).2 = (s.getStateObject env addr).2 := by
  unfold exist
  split <;> rename_i hg <;> rw [hg]

theorem empty_snd (s : IntraBlockState Addr Hash) (addr : Addr) :
    (s.empty env addr).2 = (s.getStateObject env addr).2 := by
  unfold empty
  split <;> rename_i hg <;> rw [hg]

theorem moves_getStateObject {s : IntraBlockState Addr Hash} (h : ViewInv s) (addr : Addr) :
    Moves env s (s.getStateObject env addr).2 (s.view env) :=
  ⟨h.getStateObject env addr, getStateObject_stateReader env s addr, view_getStateObject env s addr⟩

/-- A read that writes back the object it loaded from: the loads change no view. -/
theorem moves_load {s : IntraBlockState Addr Hash} (h : ViewInv s) (addr : Addr)
    (load : StateObject Addr Hash → IntraBlockState Addr Hash → StateObject Addr Hash)
    (hload : ∀ so t, StateObject.ObjectInv so →
      StateObject.ObjectInv (load so t) ∧ (load so t).view env t.stateReader = so.view env t.stateReader) :
    Moves env s (match s.getStateObject env addr with
      | (some so, t) => if so.deleted then t else t.writeObject addr (load so t)
      | (none, t) => t) (s.view env) := by
  rcases hg : s.getStateObject env addr with ⟨_ | so, t⟩ <;> have hl := lookup_getStateObject env h hg
  · exact ⟨hl.inv, hl.reader, hl.view⟩
  · dsimp only
    split_ifs
    · exact ⟨hl.inv, hl.reader, hl.view⟩
    · obtain ⟨ho, hv⟩ := hload so t (hl.inv.objects addr so hl.live)
      have hm := moves_writeObject env hl.inv hl.live ho
      rw [hv, ← view_of_live env hl.live, Function.update_eq_self, hl.view] at hm
      exact ⟨hm.inv, hm.reader.trans hl.reader, hm.view⟩

theorem moves_getCode {s : IntraBlockState Addr Hash} (h : ViewInv s) (addr : Addr) :
    Moves env s (s.getCode env addr).2 (s.view env) := by
  have hm := moves_load env h addr (fun so t => (so.loadCode env t.stateReader).2)
    fun so t ho => ⟨ho.loadCode env t.stateReader, StateObject.view_loadCode env t.stateReader so⟩
  unfold getCode
  rcases hg : s.getStateObject env addr with ⟨_ | so, t⟩ <;> rw [hg] at hm
  · exact hm
  · dsimp only at hm ⊢
    split_ifs at hm ⊢ <;> exact hm

theorem moves_getState {s : IntraBlockState Addr Hash} (h : ViewInv s) (addr : Addr) (key : Hash) :
    Moves env s (s.getState env addr key).2 (s.view env) := by
  have hm := moves_load env h addr (fun so t => (so.getState t.stateReader key).2)
    fun so t ho => ⟨ho.getState t.stateReader key, StateObject.view_getState env t.stateReader so key⟩
  unfold getState
  rcases hg : s.getStateObject env addr with ⟨_ | so, t⟩ <;> rw [hg] at hm
  · exact hm
  · dsimp only at hm ⊢
    split_ifs at hm ⊢ <;> exact hm

/-! ### Every call, and every run -/

/-- Every call moves the view as the abstract call moves it, and keeps the caches coherent. -/
theorem moves_call {s s' : IntraBlockState Addr Hash} (h : ViewInv s) {c : Call Addr Hash}
    (hc : s.call env c = some s') : Moves env s s' (AccountView.call env s.stateReader (s.view env) c) := by
  cases c with
  | addBalance addr amount => cases hc; exact moves_addBalance env h addr amount
  | subBalance addr amount => cases hc; exact moves_subBalance env h addr amount
  | setBalance addr amount => cases hc; exact moves_setBalance env h addr amount
  | setNonce addr nonce => cases hc; exact moves_setNonce env h addr nonce
  | setCode addr code => cases hc; exact moves_setCode env h addr code
  | setState addr key value => cases hc; exact moves_setState env h addr key value
  | createAccount addr contractCreation => cases hc; exact moves_createAccount env h addr contractCreation
  | suicide addr => cases hc; exact moves_selfdestruct env h addr
  | selfdestruct addr => cases hc; exact moves_selfdestruct env h addr
  | addRefund gas => cases hc; exact moves_of_accounts env h rfl rfl rfl rfl
  | subRefund gas => cases hc; exact moves_of_accounts env h rfl rfl rfl rfl
  | addLog log => cases hc; exact moves_of_accounts env h rfl rfl rfl rfl
  | addAddressToAccessList addr =>
    cases hc
    unfold addAddressToAccessList
    rcases s.accessList.addAddress addr with ⟨addrMod, al⟩
    dsimp only
    split_ifs
    · exact moves_of_accounts env h rfl rfl rfl rfl
    · exact moves_of_accounts env h rfl rfl rfl rfl
  | addSlotToAccessList addr slot =>
    obtain ⟨⟨⟨addrMod, slotMod⟩, al⟩, -, rfl⟩ := Option.map_eq_some_iff.mp hc
    dsimp only
    split_ifs
    all_goals exact moves_of_accounts env h rfl rfl rfl rfl
  | getBalance addr =>
    cases hc
    rw [getBalance_snd]
    exact moves_getStateObject env h addr
  | getNonce addr =>
    cases hc
    rw [getNonce_snd]
    exact moves_getStateObject env h addr
  | getCode addr => cases hc; exact moves_getCode env h addr
  | getState addr key => cases hc; exact moves_getState env h addr key
  | exist addr =>
    cases hc
    rw [exist_snd]
    exact moves_getStateObject env h addr
  | empty addr =>
    cases hc
    rw [empty_snd]
    exact moves_getStateObject env h addr

theorem ViewInv.run {s s' : IntraBlockState Addr Hash} (h : ViewInv s) {cs : List (Call Addr Hash)}
    (hrun : s.run env cs = some s') : ViewInv s' := by
  induction cs generalizing s with
  | nil => cases hrun; exact h
  | cons c cs ih =>
    obtain ⟨s₁, hc, hrest⟩ := Option.bind_eq_some_iff.mp hrun
    exact ih (moves_call env h hc).inv hrest

/-- From every state whose caches are coherent, a run of calls moves the view as the abstract calls move it:
the caches, the lazy loads and the lazy increases of `IntraBlockState` are invisible. -/
theorem view_run {s s' : IntraBlockState Addr Hash} (h : ViewInv s) {cs : List (Call Addr Hash)}
    (hrun : s.run env cs = some s') : s'.view env = AccountView.run env s.stateReader (s.view env) cs := by
  induction cs generalizing s with
  | nil =>
    cases hrun
    rfl
  | cons c cs ih =>
    -- the call moves the view one step, and the rest of the run goes on from there
    obtain ⟨s₁, hc, hrest⟩ := Option.bind_eq_some_iff.mp hrun
    have hm := moves_call env h hc
    rw [ih hm.inv hrest, hm.reader, hm.view]
    rfl

/-- An increase of the account `5`, which no database holds and nothing has read, a write of a slot of the
account `1` of `exampleReader`, a contract made at `2` over its account, and a read of `5`. -/
def viewCalls : List (Call ℕ ℕ) :=
  [.addBalance 5 4, .setState 1 1 9, .createAccount 2 true, .getBalance 5]

def viewCallsState : IntraBlockState ℕ ℕ :=
  ((new exampleEnv exampleReader).run exampleEnv viewCalls).getD (new exampleEnv exampleReader)

theorem view_run_viewCalls :
    ViewInv (new exampleEnv exampleReader) ∧
      (new exampleEnv exampleReader).run exampleEnv viewCalls = some viewCallsState ∧
      viewCallsState.view exampleEnv =
        AccountView.run exampleEnv exampleReader ((new exampleEnv exampleReader).view exampleEnv) viewCalls :=
  ⟨viewInv_new exampleEnv exampleReader, rfl, view_run exampleEnv (viewInv_new exampleEnv exampleReader) rfl⟩

/-! ### The reads answer from the view -/

theorem exist_fst (s : IntraBlockState Addr Hash) (addr : Addr) :
    (s.exist env addr).1 = AccountView.exist (s.view env addr) := by
  unfold exist view
  rcases s.getStateObject env addr with ⟨_ | so, t⟩ <;> rfl

theorem empty_fst (s : IntraBlockState Addr Hash) (addr : Addr) :
    (s.empty env addr).1 = AccountView.empty env (s.view env addr) := by
  unfold empty view
  rcases s.getStateObject env addr with ⟨_ | so, t⟩ <;> rfl

theorem getBalance_fst (s : IntraBlockState Addr Hash) (addr : Addr) :
    (s.getBalance env addr).1 = AccountView.getBalance (s.view env addr) := by
  unfold getBalance view
  rcases s.getStateObject env addr with ⟨_ | so, t⟩ <;> rfl

theorem getNonce_fst (s : IntraBlockState Addr Hash) (addr : Addr) :
    (s.getNonce env addr).1 = AccountView.getNonce (s.view env addr) := by
  unfold getNonce view
  rcases s.getStateObject env addr with ⟨_ | so, t⟩ <;> rfl

theorem getCodeHash_fst (s : IntraBlockState Addr Hash) (addr : Addr) :
    (s.getCodeHash env addr).1 = AccountView.getCodeHash env (s.view env addr) := by
  unfold getCodeHash view
  rcases s.getStateObject env addr with ⟨_ | so, t⟩ <;> rfl

theorem hasSelfdestructed_fst (s : IntraBlockState Addr Hash) (addr : Addr) :
    (s.hasSelfdestructed env addr).1 = AccountView.hasSelfdestructed (s.view env addr) := by
  unfold hasSelfdestructed view
  rcases s.getStateObject env addr with ⟨_ | so, t⟩ <;> rfl

/-- `GetCode` loads the code of the view. -/
theorem getCode_fst (s : IntraBlockState Addr Hash) (addr : Addr) :
    (s.getCode env addr).1 = AccountView.getCode (s.view env addr) := by
  rcases hg : s.getStateObject env addr with ⟨_ | so, t⟩
  · simp [getCode, view, hg, AccountView.getCode]
  · have hreader : t.stateReader = s.stateReader := by rw [← getStateObject_stateReader env s addr, hg]
    by_cases hd : so.deleted <;>
      simp [getCode, view, hg, hd, AccountView.getCode, StateObject.loadCode_fst, hreader]

/-- `GetState` and `GetCommittedState` read the slots of the view, where the caches are coherent. -/
theorem getState_fst {s : IntraBlockState Addr Hash} (h : ViewInv s) (addr : Addr) (key : Hash) :
    (s.getState env addr key).1 = AccountView.getState key (s.view env addr) := by
  rcases hg : s.getStateObject env addr with ⟨_ | so, t⟩ <;> have hl := lookup_getStateObject env h hg
  · simp [getState, view, hg, AccountView.getState]
  · have ho := hl.inv.objects addr so hl.live
    by_cases hd : so.deleted <;>
      simp [getState, view, hg, hd, AccountView.getState, StateObject.getState_fst_view env _ ho, hl.reader]

theorem getCommittedState_fst {s : IntraBlockState Addr Hash} (h : ViewInv s) (addr : Addr) (key : Hash) :
    (s.getCommittedState env addr key).1 = AccountView.getCommittedState key (s.view env addr) := by
  rcases hg : s.getStateObject env addr with ⟨_ | so, t⟩ <;> have hl := lookup_getStateObject env h hg
  · simp [getCommittedState, view, hg, AccountView.getCommittedState]
  · have ho := hl.inv.objects addr so hl.live
    by_cases hd : so.deleted <;>
      simp [getCommittedState, view, hg, hd, AccountView.getCommittedState,
        StateObject.getCommittedState_fst_view env _ ho, hl.reader]

/-- Every read of the state answers from the view: two states with one view, both coherent, cannot be told
apart by any read. -/
theorem reads_eq_view {s : IntraBlockState Addr Hash} (h : ViewInv s) (addr : Addr) (key : Hash) :
    (s.exist env addr).1 = AccountView.exist (s.view env addr) ∧
    (s.empty env addr).1 = AccountView.empty env (s.view env addr) ∧
    (s.getBalance env addr).1 = AccountView.getBalance (s.view env addr) ∧
    (s.getNonce env addr).1 = AccountView.getNonce (s.view env addr) ∧
    (s.getCode env addr).1 = AccountView.getCode (s.view env addr) ∧
    (s.getCodeHash env addr).1 = AccountView.getCodeHash env (s.view env addr) ∧
    (s.getState env addr key).1 = AccountView.getState key (s.view env addr) ∧
    (s.getCommittedState env addr key).1 = AccountView.getCommittedState key (s.view env addr) ∧
    (s.hasSelfdestructed env addr).1 = AccountView.hasSelfdestructed (s.view env addr) :=
  ⟨exist_fst env s addr, empty_fst env s addr, getBalance_fst env s addr, getNonce_fst env s addr,
    getCode_fst env s addr, getCodeHash_fst env s addr, getState_fst env h addr key,
    getCommittedState_fst env h addr key, hasSelfdestructed_fst env s addr⟩

theorem reads_eq_view_new :
    ViewInv (new exampleEnv exampleReader) ∧
    ((new exampleEnv exampleReader).exist exampleEnv 2).1 =
      AccountView.exist ((new exampleEnv exampleReader).view exampleEnv 2) ∧
    ((new exampleEnv exampleReader).empty exampleEnv 2).1 =
      AccountView.empty exampleEnv ((new exampleEnv exampleReader).view exampleEnv 2) ∧
    ((new exampleEnv exampleReader).getBalance exampleEnv 2).1 =
      AccountView.getBalance ((new exampleEnv exampleReader).view exampleEnv 2) ∧
    ((new exampleEnv exampleReader).getNonce exampleEnv 2).1 =
      AccountView.getNonce ((new exampleEnv exampleReader).view exampleEnv 2) ∧
    ((new exampleEnv exampleReader).getCode exampleEnv 2).1 =
      AccountView.getCode ((new exampleEnv exampleReader).view exampleEnv 2) ∧
    ((new exampleEnv exampleReader).getCodeHash exampleEnv 2).1 =
      AccountView.getCodeHash exampleEnv ((new exampleEnv exampleReader).view exampleEnv 2) ∧
    ((new exampleEnv exampleReader).getState exampleEnv 2 1).1 =
      AccountView.getState 1 ((new exampleEnv exampleReader).view exampleEnv 2) ∧
    ((new exampleEnv exampleReader).getCommittedState exampleEnv 2 1).1 =
      AccountView.getCommittedState 1 ((new exampleEnv exampleReader).view exampleEnv 2) ∧
    ((new exampleEnv exampleReader).hasSelfdestructed exampleEnv 2).1 =
      AccountView.hasSelfdestructed ((new exampleEnv exampleReader).view exampleEnv 2) :=
  ⟨viewInv_new exampleEnv exampleReader, reads_eq_view exampleEnv (viewInv_new exampleEnv exampleReader) 2 1⟩

/-- The lazy `AddBalance` of an account not read yet ends in the view the plain one ends in, which reads the
account with `GetOrNewStateObject` and adds to its balance. -/
theorem addBalance_view_eq_eager {s : IntraBlockState Addr Hash} (h : ViewInv s) (addr : Addr) (amount : BitVec 256) :
    (s.addBalance env addr amount).view env =
      ((s.getOrNewStateObject env addr).2.objectAddBalance env addr (s.getOrNewStateObject env addr).1 amount).view env :=
  (moves_addBalance env h addr amount).view.trans
    (moves_getOrNew env h addr _ (fun so t => t.objectAddBalance env addr so amount)
      fun _ _ ht hso => moves_objectAddBalance env ht hso amount).view.symm

theorem addBalance_view_eq_eager_new :
    ViewInv (new exampleEnv exampleReader) ∧
      ((new exampleEnv exampleReader).addBalance exampleEnv 1 5).view exampleEnv =
        (((new exampleEnv exampleReader).getOrNewStateObject exampleEnv 1).2.objectAddBalance exampleEnv 1
          ((new exampleEnv exampleReader).getOrNewStateObject exampleEnv 1).1 5).view exampleEnv :=
  ⟨viewInv_new exampleEnv exampleReader, addBalance_view_eq_eager exampleEnv (viewInv_new exampleEnv exampleReader) 1 5⟩

end IntraBlockState

end AmazeChain.State
