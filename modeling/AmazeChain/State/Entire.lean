import AmazeChain.State.Revert
import AmazeChain.Common.Types
import Mathlib.Data.List.AList
import AmazeChain.Lib.ListFold

/-!
# The code a mined block publishes

A mined block is published with the data a stateless node needs to execute it again
(`state.EntireCode`, `internal/miner/worker.go`): the accounts and storage the miner read, and the code
`CodeHashes` returns at the end of the block.  The verifier (`cmd/evmsdk/verify.go`) reads code only from
that list: its state reader's `ReadAccountCode` goes through `readCodeF`, which looks the code hash up in
`msg.Codes` and returns nil when it is not there.

`CodeHashes` keeps only the code of objects whose code was set in this block (`dirtyCode`), and only
`setCode` sets that flag (`codeHashes_of_clean`).  The code of a contract that already exists and is only
called, read through `GetCode`, is not in the list, and the verifier reads nil for it
(`codeHashes_misses_read_code`).

The accounts and storage go in a `Snapshot` (`modules/state/entire.go`): the miner's state reads
(`getStateObject`, `GetCommittedState`) record each read item with `AddAccount` and `AddStorage`, and the
verifier rebuilds the index maps from the items (`ReadSnapshotData`, `SetSnapshot`).  The rebuild indexes
every item at its own position (`indexItems_pointsAtItems`).  The writers do not: `AddAccount` indexes the
account one past its item, and `AddStorage` indexes a slot by the number of slots before it, which is not a
position of `Items` once an account is there.
-/

namespace AmazeChain.State

variable {Addr Hash : Type} [DecidableEq Addr] [DecidableEq Hash] (env : StateEnv Addr Hash)

set_option linter.unusedSectionVars false

/-! ### The code from the miner to the verifier -/

/-- The `HashCodes` that `worker.commit` builds from the map `CodeHashes` returns: a pair for each of its
entries, in the order `range` visits its keys (`keys`).  The sort by hash that follows is left out: `verify` only
fills a map from the pairs. -/
def hashCodes (cs : Hash → Option (List UInt8)) (keys : List Hash) : List (Hash × List UInt8) :=
  keys.filterMap fun k => (cs k).map fun code => (k, code)

/-- The `codeMap` that `verify` fills from `msg.Codes`. -/
def verifyCodeMap (codes : List (Hash × List UInt8)) : Hash → Option (List UInt8) :=
  codes.foldl (fun m pair => Function.update m pair.1 (some pair.2)) fun _ => none

/-- `readCodeF`: the code of a hash in `msg.Codes`, and nil for a hash that is not there. -/
def readCodeF (codes : List (Hash × List UInt8)) (hash : Hash) : List UInt8 :=
  (verifyCodeMap codes hash).getD []

/-- `olddb.StateReader.ReadAccountCode` with the `readCodeF` of `verify` set: nil for the hash of no code, else
what `readCodeF` returns. -/
def verifyReadAccountCode (codes : List (Hash × List UInt8)) (codeHash : Hash) : List UInt8 :=
  if codeHash = env.emptyCodeHash then [] else readCodeF codes codeHash

/-- A hash that no pair names has no code in the verifier's map. -/
theorem verifyCodeMap_eq_none {codes : List (Hash × List UInt8)} {hash : Hash} (h : ∀ p ∈ codes, p.1 ≠ hash) :
    verifyCodeMap codes hash = none :=
  -- every step writes the code of another hash
  ListFold.foldl_proj (fun m : Hash → Option (List UInt8) => m hash)
    (fun _ p hp => Function.update_of_ne (h p hp).symm _ _) _

/-- A hash that the map `CodeHashes` returns has no code for reads no code through the verifier's reader,
whatever order the pairs were built in. -/
theorem verifyReadAccountCode_hashCodes_of_none {cs : Hash → Option (List UInt8)} {hash : Hash}
    (hempty : hash ≠ env.emptyCodeHash) (h : cs hash = none) (keys : List Hash) :
    verifyReadAccountCode env (hashCodes cs keys) hash = [] := by
  have hpairs : ∀ p ∈ hashCodes cs keys, p.1 ≠ hash := by
    intro p hp
    obtain ⟨k, -, hk⟩ := List.mem_filterMap.1 hp
    obtain ⟨code, hcode, rfl⟩ := Option.map_eq_some_iff.1 hk
    rintro rfl
    simp [h] at hcode
  rw [verifyReadAccountCode, if_neg hempty, readCodeF, verifyCodeMap_eq_none hpairs, Option.getD_none]

namespace IntraBlockState

/-- With no object whose code was set in this block, `CodeHashes` returns `codeMap` as it was, whatever
order `range` visits the objects in. -/
theorem codeHashes_of_clean {s : IntraBlockState Addr Hash}
    (hclean : ∀ addr so, s.stateObjects addr = some so → so.dirtyCode = false) (order : List Addr) :
    s.codeHashes order = s.codeMap := by
  unfold codeHashes
  -- every step of the loop leaves the map alone
  refine ListFold.foldl_eq_self (fun _ => True) (fun m addr _ _ => ?_) trivial
  rcases hso : s.stateObjects addr with _ | so
  · rfl
  · simp only [hclean addr so hso, Bool.and_false, Bool.false_eq_true, ↓reduceIte]

/-- For every database with a contract at `addr` (a code hash that is neither zero nor that of no code):
on the miner's new state, `GetCode` reads the contract's code, `CodeHashes` then has no code for its hash,
whatever order it visits the objects in, and the verifier's reader, over the `HashCodes` that `worker.commit`
builds from it, reads no code for the hash. -/
theorem codeHashes_misses_read_code (reader : StateReader Addr Hash) {addr : Addr} {account : StateAccount Hash}
    {code : List UInt8} (hread : reader.readAccountData addr = some account) (hzero : account.codeHash ≠ env.zeroHash)
    (hempty : account.codeHash ≠ env.emptyCodeHash)
    (hcode : reader.readAccountCode addr account.incarnation account.codeHash = some code) (order : List Addr) :
    ((new env reader).beginWriteCodes.getCode env addr).1 = code ∧
      ((new env reader).beginWriteCodes.getCode env addr).2.codeHashes order account.codeHash = none ∧
      ∀ keys, verifyReadAccountCode env
        (hashCodes (((new env reader).beginWriteCodes.getCode env addr).2.codeHashes order) keys)
        account.codeHash = [] := by
  -- the object loaded from the database keeps the account's code hash and has no code yet
  have hhash : (StateObject.newObject env addr account account).data.codeHash = account.codeHash := by
    simp only [StateObject.newObject]
    split_ifs <;> simp_all
  have hinc : (StateObject.newObject env addr account account).data.incarnation = account.incarnation := by
    simp only [StateObject.newObject]
    split_ifs <;> rfl
  have hload : (StateObject.newObject env addr account account).loadCode env reader =
      (some code, { StateObject.newObject env addr account account with code := some code }) := by
    simp only [StateObject.loadCode, hhash, hempty, hinc, ↓reduceIte]
    rw [show (StateObject.newObject env addr account account).address = addr from rfl, hcode]
    rfl
  -- the read loads the account, with no increase waiting, and then its code
  have hget : (new env reader).beginWriteCodes.getStateObject env addr =
      (some (StateObject.newObject env addr account account),
        (new env reader).beginWriteCodes.writeObject addr (StateObject.newObject env addr account account)) :=
    getStateObject_of_read env rfl rfl hread
  have hreader : ((new env reader).beginWriteCodes.writeObject addr
      (StateObject.newObject env addr account account)).stateReader = reader := rfl
  obtain ⟨s₁, hs₁, hclean, hmap⟩ : ∃ s₁, (new env reader).beginWriteCodes.getCode env addr = (code, s₁) ∧
      (∀ a so, s₁.stateObjects a = some so → so.dirtyCode = false) ∧ s₁.codeMap = fun _ => none := by
    refine ⟨((new env reader).beginWriteCodes.writeObject addr (StateObject.newObject env addr account account)).writeObject
      addr { StateObject.newObject env addr account account with code := some code }, ?_, ?_, rfl⟩
    · simp only [getCode, hget, hreader, hload]
      rfl
    · -- the only object is the loaded one, whose code was read, not set
      intro a so ha
      simp only [writeObject, beginWriteCodes, new] at ha
      by_cases h : a = addr
      · subst h
        simp only [Function.update_self, Option.some.injEq] at ha
        subst ha
        rfl
      · simp [Function.update_of_ne h] at ha
  have hmiss : s₁.codeHashes order account.codeHash = none := by rw [codeHashes_of_clean hclean, hmap]
  rw [hs₁]
  exact ⟨rfl, hmiss, verifyReadAccountCode_hashCodes_of_none env hempty hmiss⟩

theorem codeHashes_misses_read_code_contract_two :
    exampleReader.readAccountData 2 = some ⟨true, 0, 0, 7, 0⟩ ∧ (7 : ℕ) ≠ exampleEnv.zeroHash ∧
      (7 : ℕ) ≠ exampleEnv.emptyCodeHash ∧ exampleReader.readAccountCode 2 0 7 = some [96, 0] ∧
      ((new exampleEnv exampleReader).beginWriteCodes.getCode exampleEnv 2).1 = [96, 0] ∧
      ((new exampleEnv exampleReader).beginWriteCodes.getCode exampleEnv 2).2.codeHashes [2] 7 = none ∧
      verifyReadAccountCode exampleEnv
        (hashCodes (((new exampleEnv exampleReader).beginWriteCodes.getCode exampleEnv 2).2.codeHashes [2]) [7])
        7 = [] :=
  ⟨rfl, by decide, by decide, rfl,
    codeHashes_misses_read_code exampleEnv exampleReader
      (show exampleReader.readAccountData 2 = some ⟨true, 0, 0, 7, 0⟩ from rfl) (by decide) (by decide) rfl [2]
      |>.imp_right fun h => ⟨h.1, h.2 [7]⟩⟩

end IntraBlockState

/-! ### The snapshot of the items a block reads -/

/-- `Item`: a key and its value. -/
structure Item where
  key : List UInt8
  value : List UInt8
  deriving DecidableEq, Repr

/-- A Go `map[string]int` from keys to positions of `Items`; its `len` is the number of its entries. -/
abbrev IndexMap := AList fun _ : List UInt8 => ℕ

/-- `Snapshot`: the items, the position of each account's item (`accounts`) and each slot's (`storage`) by
its key, and whether the snapshot is written (the miner's) or read (the verifier's).  `OutHash` and the
fallback reader `getOneFun` are left out: no function here reads them. -/
structure Snapshot where
  items : List Item
  accounts : IndexMap
  storage : IndexMap
  written : Bool

/-- `PlainGenerateCompositeStorageKey` (`modules/utils.go`): the address, the incarnation in two big-endian
bytes, and the key, 54 bytes. -/
def plainGenerateCompositeStorageKey (address : Common.Address) (incarnation : UInt16) (key : Common.Hash) :
    List UInt8 :=
  address.toList ++ BigEndian.ofNat incarnation.toNat 2 ++ key.toList

theorem length_plainGenerateCompositeStorageKey (address : Common.Address) (incarnation : UInt16)
    (key : Common.Hash) : (plainGenerateCompositeStorageKey address incarnation key).length = 54 := by
  simp only [plainGenerateCompositeStorageKey, List.length_append, List.Vector.toList_length, BigEndian.length_ofNat]
  -- twenty bytes of address, two of incarnation and thirty-two of key
  rfl

namespace Snapshot

/-- `NewWritableSnapshot`. -/
def newWritableSnapshot : Snapshot := ⟨[], ∅, ∅, true⟩

/-- `NewReadableSnapshot`. -/
def newReadableSnapshot : Snapshot := ⟨[], ∅, ∅, false⟩

variable {Hash : Type} (encodeForStorage : StateAccount Hash → List UInt8)

/-- `AddAccount`: a written snapshot appends the account's item, encoded by `EncodeForStorage`, and indexes
it by `len(s.Items)` after the append. -/
def addAccount (s : Snapshot) (address : Common.Address) (account : Option (StateAccount Hash)) : Snapshot :=
  match account with
  | none => s
  | some account =>
    if !s.written then s
    else
      let items := s.items ++ [⟨address.toList, encodeForStorage account⟩]
      { s with items, accounts := s.accounts.insert address.toList items.length }

/-- `AddStorage`: a written snapshot appends a nonempty value's item under the composite key and indexes it
by `len(s.storage)`, the number of slots indexed before it. -/
def addStorage (s : Snapshot) (address : Common.Address) (key : Common.Hash) (incarnation : UInt16)
    (value : List UInt8) : Snapshot :=
  if !s.written || value.length = 0 then s
  else
    let compositeKey := plainGenerateCompositeStorageKey address incarnation key
    { s with items := s.items ++ [⟨compositeKey, value⟩],
             storage := s.storage.insert compositeKey s.storage.entries.length }

/-- One step of the loop of `ReadSnapshotData` and `SetSnapshot` over the items with their positions: an
address-long key goes in `accounts`, any other in `storage`, and a later item of a key overwrites. -/
def indexItem (s : Snapshot) (v : Item × ℕ) : Snapshot :=
  if v.1.key.length = Common.addressLength then { s with accounts := s.accounts.insert v.1.key v.2 }
  else { s with storage := s.storage.insert v.1.key v.2 }

/-- The loop of `ReadSnapshotData` and `SetSnapshot`, from empty maps: every item at its position. -/
def indexItems (s : Snapshot) : Snapshot :=
  s.items.zipIdx.foldl indexItem { s with accounts := ∅, storage := ∅ }

/-- `SetSnapshot`: the maps are made afresh from the items. -/
def setSnapshot (s : Snapshot) : Snapshot := s.indexItems

/-- `ReadSnapshotData`, from the items `rlp.DecodeBytes` decoded (no data decodes to no items). -/
def readSnapshotData (items : List Item) : Snapshot := { newReadableSnapshot with items }.indexItems

/-- Every index in the maps is the position of an item with its key: an account's key has the length of an
address, and a slot's key does not. -/
structure PointsAtItems (s : Snapshot) : Prop where
  accounts : ∀ k i, s.accounts.lookup k = some i → (s.items[i]?.map Item.key) = some k ∧ k.length = Common.addressLength
  storage : ∀ k i, s.storage.lookup k = some i → (s.items[i]?.map Item.key) = some k ∧ k.length ≠ Common.addressLength

theorem indexItem_items (s : Snapshot) (v : Item × ℕ) : (s.indexItem v).items = s.items := by
  unfold indexItem
  split_ifs <;> rfl

/-- The step of the rebuild: indexing an item at its own position keeps every index pointing at its item. -/
theorem PointsAtItems.indexItem {s : Snapshot} (h : s.PointsAtItems) {v : Item × ℕ} (hv : s.items[v.2]? = some v.1) :
    (s.indexItem v).PointsAtItems := by
  unfold Snapshot.indexItem
  split_ifs with hlen
  · refine ⟨fun k i hk => ?_, h.storage⟩
    by_cases hkv : k = v.1.key
    · subst hkv
      rw [AList.lookup_insert, Option.some.injEq] at hk
      subst hk
      exact ⟨by rw [hv]; rfl, hlen⟩
    · rw [AList.lookup_insert_ne hkv] at hk
      exact h.accounts k i hk
  · refine ⟨h.accounts, fun k i hk => ?_⟩
    by_cases hkv : k = v.1.key
    · subst hkv
      rw [AList.lookup_insert, Option.some.injEq] at hk
      subst hk
      exact ⟨by rw [hv]; rfl, hlen⟩
    · rw [AList.lookup_insert_ne hkv] at hk
      exact h.storage k i hk

/-- The rebuild of `ReadSnapshotData` and `SetSnapshot` indexes every item at its own position. -/
theorem indexItems_pointsAtItems (s : Snapshot) : s.indexItems.PointsAtItems := by
  unfold indexItems
  -- the loop runs over the items with their positions, on a snapshot that keeps the items
  suffices ∀ (l : List (Item × ℕ)) (t : Snapshot), t.items = s.items → (∀ v ∈ l, s.items[v.2]? = some v.1) →
      t.PointsAtItems → (l.foldl indexItem t).PointsAtItems by
    refine this _ _ rfl (fun v hv => ?_) ⟨fun k i hk => by simp at hk, fun k i hk => by simp at hk⟩
    obtain ⟨hlt, heq⟩ := List.mem_zipIdx' hv
    rw [List.getElem?_eq_getElem hlt, heq]
  intro l
  induction l with
  | nil => intro t _ _ ht; exact ht
  | cons v l ih =>
    intro t hitems hl ht
    rw [List.foldl_cons]
    refine ih _ (by rw [indexItem_items, hitems]) (fun w hw => hl w (List.mem_cons_of_mem v hw)) ?_
    exact ht.indexItem (by rw [hitems]; exact hl v List.mem_cons_self)

/-- `AddAccount` on a written snapshot indexes the account at the length of the items it leaves, where no
item is. -/
theorem addAccount_lookup (s : Snapshot) (hw : s.written = true) (address : Common.Address)
    (account : StateAccount Hash) :
    (s.addAccount encodeForStorage address (some account)).accounts.lookup address.toList =
        some (s.items.length + 1) ∧
      (s.addAccount encodeForStorage address (some account)).items.length = s.items.length + 1 := by
  simp [addAccount, hw]

/-- `AddStorage` of a nonempty value on a written snapshot indexes the slot by the number of slots indexed
before it. -/
theorem addStorage_lookup (s : Snapshot) (hw : s.written = true) (address : Common.Address) (key : Common.Hash)
    (incarnation : UInt16) (b : UInt8) (bs : List UInt8) :
    (s.addStorage address key incarnation (b :: bs)).storage.lookup
        (plainGenerateCompositeStorageKey address incarnation key) = some s.storage.entries.length ∧
      (s.addStorage address key incarnation (b :: bs)).items =
        s.items ++ [⟨plainGenerateCompositeStorageKey address incarnation key, b :: bs⟩] := by
  simp [addStorage, hw]

/-- For every address, account, slot and nonempty value: on a new written snapshot, `AddAccount` indexes the
account at `1`, past its only item, and a following `AddStorage` indexes the slot at `0`, the account's
item, whose key is the address and not the slot's. -/
theorem addAccount_addStorage_miss_their_items (address : Common.Address) (account : StateAccount Hash)
    (key : Common.Hash) (incarnation : UInt16) (b : UInt8) (bs : List UInt8) :
    (newWritableSnapshot.addAccount encodeForStorage address (some account)).accounts.lookup address.toList = some 1 ∧
      (newWritableSnapshot.addAccount encodeForStorage address (some account)).items[1]? = none ∧
      ((newWritableSnapshot.addAccount encodeForStorage address (some account)).addStorage address key incarnation
          (b :: bs)).storage.lookup (plainGenerateCompositeStorageKey address incarnation key) = some 0 ∧
      (((newWritableSnapshot.addAccount encodeForStorage address (some account)).addStorage address key incarnation
          (b :: bs)).items[0]?.map Item.key) = some address.toList ∧
      address.toList ≠ plainGenerateCompositeStorageKey address incarnation key := by
  obtain ⟨hacc, hlen⟩ := addAccount_lookup encodeForStorage newWritableSnapshot rfl address account
  have hw : (newWritableSnapshot.addAccount encodeForStorage address (some account)).written = true := rfl
  obtain ⟨hslot, hitems⟩ := addStorage_lookup _ hw address key incarnation b bs
  have hnew : (newWritableSnapshot.addAccount encodeForStorage address (some account)).items =
      [⟨address.toList, encodeForStorage account⟩] := rfl
  refine ⟨hacc, ?_, hslot, ?_, ?_⟩
  · rw [hnew]; rfl
  · rw [hitems, hnew]; rfl
  · -- an address has 20 bytes and a composite key 54
    intro heq
    have := congrArg List.length heq
    rw [length_plainGenerateCompositeStorageKey, List.Vector.toList_length] at this
    exact absurd this (by decide)

end Snapshot

end AmazeChain.State
