import Mathlib.Data.List.Sort
import AmazeChain.State.Finalise
import AmazeChain.State.Revert

/-!
# The state root

`GenerateRootHash` (`IntermediateRoot`, `modules/state/intra_block_state.go`) is the root a block header
carries and `ValidateState` compares.  It sorts the addresses of `stateObjectsDirty`, reads each one's
object through `getStateObject` and feeds Keccak-256 the RLP encoding of six fields of its account:
incarnation, balance, nonce, `Initialised`, code hash and the storage root `Root`.  With no dirty address it
is `NilHash`.

What goes in is all that the root can depend on (`generateRootHash_congr`): the sorted list, which is the
same whatever order Go's map iteration gives (`sortedKeys_unique`), and those six fields of the dirty
accounts.  It has no address and no storage value, and no method of the state writes `Root`: an object has
the root the reader decoded for it, or the zero hash when it is made in the block.  The model keeps no
`Root` in its accounts; the root of each dirty account is the argument `rootOf`.  Two executions of a block
that write different values into one storage slot of a live contract therefore give the same root
(`intermediateRoot_misses_storage`).
-/

set_option linter.unusedSectionVars false

namespace AmazeChain.State

variable {Addr Hash ω ω₁ ω₂ : Type}

/-- The fields of an account that `GenerateRootHash` encodes, in its order. -/
structure RootFields (Hash : Type) where
  incarnation : UInt16
  balance : BitVec 256
  nonce : UInt64
  initialised : Bool
  codeHash : Hash
  root : Hash
  deriving DecidableEq, Repr

/-- The encoded fields of an account with storage root `root`. -/
def RootFields.ofAccount (data : StateAccount Hash) (root : Hash) : RootFields Hash :=
  ⟨data.incarnation, data.balance, data.nonce, data.initialised, data.codeHash, root⟩

/-- The hash of `GenerateRootHash`: Keccak-256 over the RLP encodings of the accounts written one after
the other, and `utils.NilHash`. -/
structure RootHasher (Hash : Type) where
  keccak : List (RootFields Hash) → Hash
  nilHash : Hash

namespace IntraBlockState

variable [DecidableEq Addr] [DecidableEq Hash] (env : StateEnv Addr Hash)

/-- The loop of `GenerateRootHash`: read each object through `getStateObject` (which loads it if it is not
live) and take its fields; a missing object is the nil dereference `getStateObject(address).data`. -/
def rootFieldsLoop (rootOf : Addr → Hash) :
    IntraBlockState Addr Hash → List Addr → Option (List (RootFields Hash) × IntraBlockState Addr Hash)
  | s, [] => some ([], s)
  | s, addr :: rest =>
    match s.getStateObject env addr with
    | (some so, s) => (rootFieldsLoop rootOf s rest).map fun (fields, s) => (RootFields.ofAccount so.data (rootOf addr) :: fields, s)
    | (none, _) => none

/-- `GenerateRootHash` over the dirty addresses `sortAds` in ascending order, with the state after the loads
it makes; `none` is the panic on a dirty address with no object. -/
def generateRootHash (hasher : RootHasher Hash) (rootOf : Addr → Hash) (s : IntraBlockState Addr Hash)
    (sortAds : List Addr) : Option (Hash × IntraBlockState Addr Hash) :=
  if sortAds = [] then some (hasher.nilHash, s)
  else (rootFieldsLoop env rootOf s sortAds).map fun (fields, s) => (hasher.keccak fields, s)

/-- `IntermediateRoot`. -/
def intermediateRoot (hasher : RootHasher Hash) (rootOf : Addr → Hash) (s : IntraBlockState Addr Hash)
    (sortAds : List Addr) : Option (Hash × IntraBlockState Addr Hash) :=
  s.generateRootHash env hasher rootOf sortAds

/-- `sortAds` holds the addresses of `stateObjectsDirty` in ascending order, as `sort.Sort` leaves them. -/
def SortedKeys [LinearOrder Addr] (s : IntraBlockState Addr Hash) (sortAds : List Addr) : Prop :=
  sortAds.Pairwise (· < ·) ∧ ∀ addr, addr ∈ sortAds ↔ s.stateObjectsDirty addr = true

/-- The sorted list is the same whatever order the map's iteration gave the addresses in. -/
theorem sortedKeys_unique [LinearOrder Addr] {s : IntraBlockState Addr Hash} {l₁ l₂ : List Addr}
    (h₁ : s.SortedKeys l₁) (h₂ : s.SortedKeys l₂) : l₁ = l₂ :=
  h₁.1.eq_of_mem_iff h₂.1 fun addr => (h₁.2 addr).trans (h₂.2 addr).symm

/-- On live objects the loop reads only their accounts: two states whose objects at the listed addresses
are live with the same accounts give the same fields. -/
theorem rootFieldsLoop_congr (rootOf : Addr → Hash) {s₁ s₂ : IntraBlockState Addr Hash} :
    ∀ {l : List Addr}, (∀ addr ∈ l, ∃ so₁ so₂, s₁.stateObjects addr = some so₁ ∧ s₂.stateObjects addr = some so₂ ∧
        so₁.data = so₂.data) →
      ((rootFieldsLoop env rootOf s₁ l).map Prod.fst) = ((rootFieldsLoop env rootOf s₂ l).map Prod.fst)
  | [], _ => rfl
  | addr :: l, h => by
    obtain ⟨so₁, so₂, h₁, h₂, hdata⟩ := h addr List.mem_cons_self
    have hrest := rootFieldsLoop_congr rootOf (l := l) fun b hb => h b (List.mem_cons_of_mem _ hb)
    simp only [rootFieldsLoop, getStateObject_of_live env h₁, getStateObject_of_live env h₂, Option.map_map]
    -- the fields of `addr` agree, and so do those of the rest
    cases hr₁ : rootFieldsLoop env rootOf s₁ l <;> cases hr₂ : rootFieldsLoop env rootOf s₂ l <;>
      simp_all

/-- The root reads only the accounts of the dirty objects, never their storage or their address. -/
theorem generateRootHash_congr (hasher : RootHasher Hash) (rootOf : Addr → Hash) {s₁ s₂ : IntraBlockState Addr Hash}
    {sortAds : List Addr}
    (h : ∀ addr ∈ sortAds, ∃ so₁ so₂, s₁.stateObjects addr = some so₁ ∧ s₂.stateObjects addr = some so₂ ∧
      so₁.data = so₂.data) :
    (s₁.generateRootHash env hasher rootOf sortAds).map Prod.fst =
      (s₂.generateRootHash env hasher rootOf sortAds).map Prod.fst := by
  unfold generateRootHash
  split
  · rfl
  · have hl := rootFieldsLoop_congr env rootOf h
    simp only [Option.map_map] at hl ⊢
    cases hr₁ : rootFieldsLoop env rootOf s₁ sortAds <;> cases hr₂ : rootFieldsLoop env rootOf s₂ sortAds <;>
      simp_all

/-! ### A block that writes one slot -/

variable (rules : Rules) (systemAddress : Addr) (keys : Addr → List Hash)

/-- The block `SetState(a, key, value)` on a fresh state, `FinalizeTx` and `CommitBlock`, when `a` is an
account of the database that stays non-empty and `value` is not the committed one: `a` is the one live
and dirty account, with its account as read and `value` in its dirty storage. -/
theorem setState_block_of_read (w₁ : StateWriter Addr Hash ω₁) (w₂ : StateWriter Addr Hash ω₂)
    (reader : StateReader Addr Hash) {a : Addr} {account : StateAccount Hash}
    (hread : reader.readAccountData a = some account)
    (hlive : (StateObject.newObject env a account account).empty env = false) (key : Hash) {value : BitVec 256}
    (hv : value ≠ (reader.readAccountStorage a account.incarnation key).getD 0) (o₁ : ω₁) (o₂ : ω₂)
    {order : List Addr} (horder : order.count a = 1) :
    ∃ so,
      ((((new env reader).setState env a key value).finalizeTx env w₁ rules systemAddress o₁ order keys).1.commitBlock
          env w₂ rules systemAddress o₂ order keys).1.stateObjects = Function.update (fun _ => none) a (some so) ∧
      ((((new env reader).setState env a key value).finalizeTx env w₁ rules systemAddress o₁ order keys).1.commitBlock
          env w₂ rules systemAddress o₂ order keys).1.stateObjectsDirty = Function.update (fun _ => false) a true ∧
      so.data = (StateObject.newObject env a account account).data ∧ so.dirtyStorage key = some value ∧
      so.fakeStorage = none ∧ so.deleted = false := by
  rw [setState_of_read env rfl rfl rfl hread key hv, new_stateReader]
  dsimp only
  set obj := StateObject.newObject env a account account
  set committed := (reader.readAccountStorage a account.incarnation key).getD 0
  set so := ({ obj with
    originStorage := Function.update obj.originStorage key (some committed)
    blockOriginStorage := Function.update obj.blockOriginStorage key (some committed) } : StateObject Addr Hash).setState
      key value
  set s := (((new env reader).writeObject a obj).append (.storageChange a key committed)).writeObject a so
  -- the write leaves `a` the one live object and the one address the journal names
  have hso : s.stateObjects a = some so := by simp [s]
  have hothers : ∀ addr, addr ≠ a → s.stateObjects addr = none := fun addr haddr => by
    simp [s, Function.update_of_ne haddr]
  obtain ⟨hda, hdirty⟩ := dirties_of_only (s := s) (a := a) (by simp [s, JournalEntry.dirtied])
    (by simp [s, JournalEntry.dirtied])
  obtain ⟨origin, hobjs, hdirtyset⟩ := commitBlock_finalizeTx_of_single env rules systemAddress keys w₁ w₂
    (fun addr => by simp [s]) hothers hso hdirty hda rfl hlive o₁ o₂ horder
  refine ⟨{ so with deleted := false, originStorage := origin }, ?_, ?_, rfl, ?_, rfl, rfl⟩
  · rw [hobjs]
    simp [s]
  · rw [hdirtyset]
    simp [s]
  · exact Function.update_self ..

/-- After that block the slot reads `value`, `a` is the one dirty address, and the root is the hash of the
fields of `a`'s account as read, whatever `value` is. -/
theorem intermediateRoot_setState_block [LinearOrder Addr] (hasher : RootHasher Hash) (rootOf : Addr → Hash)
    (w₁ : StateWriter Addr Hash ω₁) (w₂ : StateWriter Addr Hash ω₂) (reader : StateReader Addr Hash) {a : Addr}
    {account : StateAccount Hash} (hread : reader.readAccountData a = some account)
    (hlive : (StateObject.newObject env a account account).empty env = false) (key : Hash) {value : BitVec 256}
    (hv : value ≠ (reader.readAccountStorage a account.incarnation key).getD 0) (o₁ : ω₁) (o₂ : ω₂)
    {order : List Addr} (horder : order.count a = 1) :
    let post := ((((new env reader).setState env a key value).finalizeTx env w₁ rules systemAddress o₁ order
      keys).1.commitBlock env w₂ rules systemAddress o₂ order keys).1
    (post.getState env a key).1 = value ∧ post.SortedKeys [a] ∧
      (post.intermediateRoot env hasher rootOf [a]).map Prod.fst =
        some (hasher.keccak [RootFields.ofAccount (StateObject.newObject env a account account).data (rootOf a)]) := by
  intro post
  obtain ⟨so, hobjs, hdirtyset, hdata, hkey, hfake, hdel⟩ :=
    setState_block_of_read env rules systemAddress keys w₁ w₂ reader hread hlive key hv o₁ o₂ horder
  have hso : post.stateObjects a = some so := by rw [hobjs]; exact Function.update_self ..
  refine ⟨?_, ⟨List.pairwise_singleton _ _, fun addr => ?_⟩, ?_⟩
  · -- the slot is read from the dirty storage
    simp [getState, getStateObject_of_live env hso, hdel, StateObject.getState, hfake, hkey]
  · rw [hdirtyset, List.mem_singleton]
    by_cases haddr : addr = a
    · simp [haddr]
    · simp [haddr]
  · -- the loop reads the one object and nothing of its storage
    simp [intermediateRoot, generateRootHash, rootFieldsLoop, getStateObject_of_live env hso, hdata]

/-- Two runs of a block that write different values into one storage slot of a live account give the
same root: the root does not commit to storage. -/
theorem intermediateRoot_misses_storage [LinearOrder Addr] (hasher : RootHasher Hash) (rootOf : Addr → Hash)
    (w : StateWriter Addr Hash ω) (o : ω) (reader : StateReader Addr Hash) {a : Addr}
    {account : StateAccount Hash} (hread : reader.readAccountData a = some account)
    (hlive : (StateObject.newObject env a account account).empty env = false) (key : Hash) {v₁ v₂ : BitVec 256}
    (h₁ : v₁ ≠ (reader.readAccountStorage a account.incarnation key).getD 0)
    (h₂ : v₂ ≠ (reader.readAccountStorage a account.incarnation key).getD 0) {order : List Addr}
    (horder : order.count a = 1) :
    let post := fun v => ((((new env reader).setState env a key v).finalizeTx env noopWriter rules systemAddress ()
      order keys).1.commitBlock env w rules systemAddress o order keys).1
    ((post v₁).getState env a key).1 = v₁ ∧ ((post v₂).getState env a key).1 = v₂ ∧
      (post v₁).SortedKeys [a] ∧ (post v₂).SortedKeys [a] ∧
      ((post v₁).intermediateRoot env hasher rootOf [a]).map Prod.fst =
        ((post v₂).intermediateRoot env hasher rootOf [a]).map Prod.fst ∧
      ((post v₁).intermediateRoot env hasher rootOf [a]).isSome := by
  intro post
  obtain ⟨hget₁, hsorted₁, hroot₁⟩ := intermediateRoot_setState_block env rules systemAddress keys hasher rootOf
    noopWriter w reader hread hlive key h₁ () o horder
  obtain ⟨hget₂, hsorted₂, hroot₂⟩ := intermediateRoot_setState_block env rules systemAddress keys hasher rootOf
    noopWriter w reader hread hlive key h₂ () o horder
  refine ⟨hget₁, hget₂, hsorted₁, hsorted₂, hroot₁.trans hroot₂.symm, ?_⟩
  rw [← Option.isSome_map (f := Prod.fst), hroot₁]
  rfl

theorem intermediateRoot_misses_storage_exampleReader :
    exampleReader.readAccountData 1 = some ⟨true, 0, 10, 0, 0⟩ ∧
      (StateObject.newObject exampleEnv 1 ⟨true, 0, 10, 0, 0⟩ ⟨true, 0, 10, 0, 0⟩).empty exampleEnv = false ∧
      (1 : BitVec 256) ≠ (exampleReader.readAccountStorage 1 0 5).getD 0 ∧
      (2 : BitVec 256) ≠ (exampleReader.readAccountStorage 1 0 5).getD 0 ∧ [1].count 1 = 1 ∧
      let post := fun v => ((((new exampleEnv exampleReader).setState exampleEnv 1 5 v).finalizeTx exampleEnv noopWriter
        ⟨true, false⟩ 0 () [1] fun _ => [5]).1.commitBlock exampleEnv noopWriter ⟨true, false⟩ 0 () [1] fun _ => [5]).1
      ((post 1).getState exampleEnv 1 5).1 = 1 ∧ ((post 2).getState exampleEnv 1 5).1 = 2 ∧
        (post 1).SortedKeys [1] ∧ (post 2).SortedKeys [1] ∧
        ((post 1).intermediateRoot exampleEnv ⟨List.length, 0⟩ (fun _ => 0) [1]).map Prod.fst =
          ((post 2).intermediateRoot exampleEnv ⟨List.length, 0⟩ (fun _ => 0) [1]).map Prod.fst ∧
        ((post 1).intermediateRoot exampleEnv ⟨List.length, 0⟩ (fun _ => 0) [1]).isSome := by
  have hlive : (StateObject.newObject exampleEnv 1 ⟨true, 0, 10, 0, 0⟩ ⟨true, 0, 10, 0, 0⟩).empty exampleEnv = false := by
    decide
  have h₁ : (1 : BitVec 256) ≠ (exampleReader.readAccountStorage 1 0 5).getD 0 := by decide
  have h₂ : (2 : BitVec 256) ≠ (exampleReader.readAccountStorage 1 0 5).getD 0 := by decide
  exact ⟨rfl, hlive, h₁, h₂, rfl, intermediateRoot_misses_storage exampleEnv ⟨true, false⟩ 0 (fun _ => [5])
    ⟨List.length, 0⟩ (fun _ => 0) noopWriter () exampleReader rfl hlive 5 h₁ h₂ rfl⟩

end IntraBlockState

end AmazeChain.State
