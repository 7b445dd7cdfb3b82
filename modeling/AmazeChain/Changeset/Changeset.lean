import AmazeChain.Kv.DupSort
import AmazeChain.Common.Types
import AmazeChain.Lib.ExceptFold

/-!
# Changesets

The changesets of a block in their dup-sorted tables (`modules/changeset`).  `EncodeAccounts` writes each account
change of block `n` under the key `n`, its value the address followed by the account's encoding; `EncodeStorage`
writes each storage change under `n`, address and incarnation, its value the location followed by the slot's
value.  `FromDBFormat` decodes a pair by the length of its key, `FindAccount` and `FindStorage` look one key up
with `SeekBothRange`, and `ForRange` walks the blocks of a range.

Decoding gives back exactly the changes written (`encodeAccounts_decode_perm`, `encodeStorage_decode_perm`), and
`ForRange` hands its walker exactly the pairs of the blocks in its range, in the table's order
(`forRange_eq_foldlM`), so over a block written by `EncodeAccounts` or `EncodeStorage` it hands the walker each
change of the block once (`forRange_encodeAccounts`, `forRange_encodeStorage`).  `FindStorage` finds the value
of every key written and `ErrNotFound` for every other (`findStorage_encodeStorage`,
`findStorage_encodeStorage_of_absent`).  `FindAccount` finds every address written and `nil` for an address
below a written one, but for an address above all the addresses of the block
`SeekBothRange` finds nothing, and `DecodeAccounts` of that empty value fails: "account changes purged"
(`findAccount_above_reports_purged`).

The writers' error callback never fails here; the keys of the storage changes are 54 bytes, as
`PlainGenerateCompositeStorageKey` builds them, so the slicing that would panic on a shorter key is not modelled.
`DecodeStorage` turns an empty value into `nil`, which as a list of bytes is the empty value.
-/

namespace AmazeChain.Changeset

open Kv BigEndian
open Common (addressLength hashLength)

/-- `length.BlockNum`. -/
abbrev blockNumLength : ℕ := 8

/-- `modules.Incarnation`: the bytes of an incarnation. -/
abbrev incarnationLength : ℕ := 2

/-- `ErrNotFound`. -/
def errNotFound : String := "not found"

/-- `changeset.Change`. -/
@[ext] structure Change where
  key : List UInt8
  value : List UInt8
  deriving DecidableEq, Repr

/-- `sort.Sort` of a changeset with `ChangeSet.Less`: by key, then by value. -/
def sortChanges (changes : List Change) : List Change :=
  changes.mergeSort fun a b => !decide (EntryLt (b.key, b.value) (a.key, a.value))

/-- `modules.EncodeBlockNumber`. -/
def encodeBlockNumber (number : UInt64) : List UInt8 := putUint64 number

/-- `EncodeAccounts`, writing with `put`. -/
def encodeAccounts (blockN : UInt64) (s : List Change) (t : DupSort) : DupSort :=
  (sortChanges s).foldl (fun t cs => t.put (encodeBlockNumber blockN) (cs.key ++ cs.value)) t

/-- `DecodeAccounts`: the block, the address and the account. -/
def decodeAccounts (dbKey dbValue : List UInt8) : Except String (UInt64 × List UInt8 × List UInt8) :=
  let blockN := uint64 dbKey
  if dbValue.length < addressLength then .error ("account changes purged for block " ++ toString blockN)
  else .ok (blockN, dbValue.take addressLength, dbValue.drop addressLength)

/-- `FindAccount`: the account of `key` in block `blockNumber`, `none` for `nil`. -/
def findAccount (c : DupSort) (blockNumber : UInt64) (key : List UInt8) : Except String (Option (List UInt8)) :=
  let k := encodeBlockNumber blockNumber
  -- `SeekBothRange` returns `nil` when it finds nothing
  let v := (c.seekBothRange k key).getD []
  match decodeAccounts k v with
  | .error e => .error e
  | .ok (_, k, v) => if key.isPrefixOf k then .ok (some v) else .ok none

/-- `EncodeStorage`, writing with `put`. -/
def encodeStorage (blockN : UInt64) (s : List Change) (t : DupSort) : DupSort :=
  let keyPart := addressLength + incarnationLength
  (sortChanges s).foldl
    (fun t cs => t.put (putUint64 blockN ++ cs.key.take keyPart) (cs.key.drop keyPart ++ cs.value)) t

/-- `DecodeStorage`: the block, the key of 54 bytes (the key of the table past the block, then the location) and
the value. -/
def decodeStorage (dbKey dbValue : List UInt8) : Except String (UInt64 × List UInt8 × List UInt8) :=
  let blockN := uint64 dbKey
  if dbValue.length < hashLength then .error ("storage changes purged for block " ++ toString blockN)
  else
    let keyLen := addressLength + incarnationLength + hashLength
    let dbKey := dbKey.drop blockNumLength
    -- `copy` into a zeroed key of 54 bytes
    let k := (dbKey ++ dbValue.take hashLength ++ List.replicate keyLen 0).take keyLen
    .ok (blockN, k, dbValue.drop hashLength)

/-- `FindStorage`: the value of the key of 54 bytes in block `blockNumber`. -/
def findStorage (c : DupSort) (blockNumber : UInt64) (k : List UInt8) : Except String (List UInt8) :=
  let addWithInc := k.take (addressLength + incarnationLength)
  let loc := k.drop (addressLength + incarnationLength)
  let seek := putUint64 blockNumber ++ addWithInc
  let v := (c.seekBothRange seek loc).getD []
  if !loc.isPrefixOf v then .error errNotFound else .ok (v.drop hashLength)

/-- `FromDBFormat`: an account change under a key of eight bytes, else a storage change. -/
def fromDBFormat (dbKey dbValue : List UInt8) : Except String (UInt64 × List UInt8 × List UInt8) :=
  if dbKey.length = 8 then decodeAccounts dbKey dbValue else decodeStorage dbKey dbValue

/-- `ForRange`: the walker on the changes of the blocks from `fromBlock` to before `toBlock`, with its state. -/
def forRange {σ : Type} (db : DupSort) (fromBlock toBlock : UInt64)
    (walker : σ → UInt64 → List UInt8 → List UInt8 → Except String σ) (s : σ) : Except String σ :=
  db.walk (encodeBlockNumber fromBlock) (fun s k v =>
    match fromDBFormat k v with
    | .error e => .error e
    | .ok (blockN, k, v) =>
      if blockN ≥ toBlock then .ok (false, s) else (walker s blockN k v).map fun s => (true, s)) s

/-! ### Changesets as the state writer builds them -/

/-- The account changes of a block: distinct addresses of 20 bytes. -/
structure AccountChanges where
  changes : List Change
  key_length : ∀ c ∈ changes, c.key.length = addressLength
  nodup : (changes.map Change.key).Nodup

/-- The storage changes of a block: distinct keys of 54 bytes, an address, an incarnation and a location. -/
structure StorageChanges where
  changes : List Change
  key_length : ∀ c ∈ changes, c.key.length = addressLength + incarnationLength + hashLength
  nodup : (changes.map Change.key).Nodup

/-- A table that holds nothing of block `n`. -/
def HoldsNoBlock (t : DupSort) (n : UInt64) : Prop :=
  ∀ e ∈ t.entries, e.1.take blockNumLength ≠ encodeBlockNumber n

theorem AccountChanges.eq_of_key_eq (S : AccountChanges) {c c' : Change} (hc : c ∈ S.changes)
    (hc' : c' ∈ S.changes) (h : c.key = c'.key) : c = c' :=
  List.inj_on_of_nodup_map S.nodup hc hc' h

theorem StorageChanges.eq_of_key_eq (T : StorageChanges) {c c' : Change} (hc : c ∈ T.changes)
    (hc' : c' ∈ T.changes) (h : c.key = c'.key) : c = c' :=
  List.inj_on_of_nodup_map T.nodup hc hc' h

/-! ### The pairs written -/

theorem mem_sortChanges {c : Change} {s : List Change} : c ∈ sortChanges s ↔ c ∈ s := List.mem_mergeSort

theorem mem_encodeAccounts {n : UInt64} {s : List Change} {t : DupSort} {e : List UInt8 × List UInt8} :
    e ∈ (encodeAccounts n s t).entries ↔ e ∈ t.entries ∨ ∃ c ∈ s, e = (encodeBlockNumber n, c.key ++ c.value) := by
  unfold encodeAccounts
  simp only [DupSort.mem_foldl_put, mem_sortChanges]

theorem mem_encodeStorage {n : UInt64} {s : List Change} {t : DupSort} {e : List UInt8 × List UInt8} :
    e ∈ (encodeStorage n s t).entries ↔ e ∈ t.entries ∨
      ∃ c ∈ s, e = (putUint64 n ++ c.key.take (addressLength + incarnationLength),
        c.key.drop (addressLength + incarnationLength) ++ c.value) := by
  unfold encodeStorage
  simp only [DupSort.mem_foldl_put, mem_sortChanges]

/-- Under the key of block `n`, a table written for block `n` holds the account changes of the block. -/
theorem mem_encodeAccounts_block {n : UInt64} {s : List Change} {t : DupSort} (ht : HoldsNoBlock t n)
    {w : List UInt8} : (encodeBlockNumber n, w) ∈ (encodeAccounts n s t).entries ↔ ∃ c ∈ s, w = c.key ++ c.value := by
  rw [mem_encodeAccounts]
  constructor
  · rintro (hw | ⟨c, hc, heq⟩)
    · exact absurd (List.take_of_length_le (by simp [encodeBlockNumber])) (ht _ hw)
    · exact ⟨c, hc, (Prod.mk.inj heq).2⟩
  · rintro ⟨c, hc, rfl⟩
    exact .inr ⟨c, hc, rfl⟩

/-- Under block `n` and an address with its incarnation, a table written for block `n` holds the storage changes
of that address and incarnation. -/
theorem mem_encodeStorage_block {n : UInt64} {s : List Change} {t : DupSort} (ht : HoldsNoBlock t n)
    {a w : List UInt8} : (putUint64 n ++ a, w) ∈ (encodeStorage n s t).entries ↔
      ∃ c ∈ s, c.key.take (addressLength + incarnationLength) = a ∧
        w = c.key.drop (addressLength + incarnationLength) ++ c.value := by
  rw [mem_encodeStorage]
  constructor
  · rintro (hw | ⟨c, hc, heq⟩)
    · exact absurd (List.take_left' (length_putUint64 n)) (ht _ hw)
    · obtain ⟨hk, hv⟩ := Prod.mk.inj heq
      exact ⟨c, hc, (List.append_cancel_left hk).symm, hv⟩
  · rintro ⟨c, hc, rfl, rfl⟩
    exact .inr ⟨c, hc, rfl⟩

/-! ### Decoding what was written -/

theorem decodeAccounts_encode (n : UInt64) {key value : List UInt8} (hkey : key.length = addressLength) :
    decodeAccounts (encodeBlockNumber n) (key ++ value) = .ok (n, key, value) := by
  unfold decodeAccounts
  rw [if_neg (by simp [hkey]), List.take_left' hkey, List.drop_left' hkey, encodeBlockNumber, uint64_putUint64]

theorem decodeStorage_encode (n : UInt64) {key value : List UInt8}
    (hkey : key.length = addressLength + incarnationLength + hashLength) :
    decodeStorage (putUint64 n ++ key.take (addressLength + incarnationLength))
      (key.drop (addressLength + incarnationLength) ++ value) = .ok (n, key, value) := by
  have hloc : (key.drop (addressLength + incarnationLength)).length = hashLength := by
    rw [List.length_drop, hkey]
    rfl
  unfold decodeStorage
  rw [if_neg (by simp [hloc])]
  dsimp only
  rw [uint64_putUint64_append, List.take_left' hloc, List.drop_left' hloc, List.drop_left' (length_putUint64 n),
    List.take_append_drop, List.take_left' hkey]

theorem fromDBFormat_encodeAccounts (n : UInt64) {key value : List UInt8} (hkey : key.length = addressLength) :
    fromDBFormat (encodeBlockNumber n) (key ++ value) = .ok (n, key, value) := by
  have hlen : (encodeBlockNumber n).length = 8 := length_putUint64 n
  rw [fromDBFormat, if_pos hlen, decodeAccounts_encode n hkey]

theorem fromDBFormat_encodeStorage (n : UInt64) {key value : List UInt8}
    (hkey : key.length = addressLength + incarnationLength + hashLength) :
    fromDBFormat (putUint64 n ++ key.take (addressLength + incarnationLength))
      (key.drop (addressLength + incarnationLength) ++ value) = .ok (n, key, value) := by
  have hlen : (putUint64 n ++ key.take (addressLength + incarnationLength)).length ≠ 8 := by
    simp [hkey]
  rw [fromDBFormat, if_neg hlen, decodeStorage_encode n hkey]

/-- Decoding the pairs `EncodeAccounts` writes into an empty table gives back the changes, each once, tagged with
their block. -/
theorem encodeAccounts_decode_perm (n : UInt64) (S : AccountChanges) :
    ((encodeAccounts n S.changes .empty).entries.map fun e => fromDBFormat e.1 e.2).Perm
      (S.changes.map fun c => .ok (n, c.key, c.value)) := by
  -- the pairs written are the changes encoded, once each
  have henc : (S.changes.map fun c => (encodeBlockNumber n, c.key ++ c.value)).Nodup := by
    refine List.Nodup.map_on (fun c hc c' hc' heq => ?_) (List.Nodup.of_map Change.key S.nodup)
    obtain ⟨hk, hv⟩ := List.append_inj (Prod.mk.inj heq).2 (by rw [S.key_length c hc, S.key_length c' hc'])
    exact Change.ext hk hv
  have hperm : (encodeAccounts n S.changes .empty).entries.Perm
      (S.changes.map fun c => (encodeBlockNumber n, c.key ++ c.value)) := by
    refine (List.perm_ext_iff_of_nodup (DupSort.nodup_entries _) henc).2 fun e => ?_
    rw [mem_encodeAccounts, List.mem_map]
    simp only [DupSort.entries_empty, List.not_mem_nil, false_or]
    exact ⟨fun ⟨c, hc, he⟩ => ⟨c, hc, he.symm⟩, fun ⟨c, hc, he⟩ => ⟨c, hc, he.symm⟩⟩
  refine (hperm.map _).trans (List.Perm.of_eq ?_)
  rw [List.map_map]
  exact List.map_congr_left fun c hc => fromDBFormat_encodeAccounts n (S.key_length c hc)

/-- Decoding the pairs `EncodeStorage` writes into an empty table gives back the changes, each once, tagged with
their block. -/
theorem encodeStorage_decode_perm (n : UInt64) (T : StorageChanges) :
    ((encodeStorage n T.changes .empty).entries.map fun e => fromDBFormat e.1 e.2).Perm
      (T.changes.map fun c => .ok (n, c.key, c.value)) := by
  have hloc : ∀ c ∈ T.changes, (c.key.drop (addressLength + incarnationLength)).length = hashLength := by
    intro c hc
    rw [List.length_drop, T.key_length c hc]
    rfl
  -- the pairs written are the changes encoded, once each: the key of the table and the location give the key
  have henc : (T.changes.map fun c => (putUint64 n ++ c.key.take (addressLength + incarnationLength),
      c.key.drop (addressLength + incarnationLength) ++ c.value)).Nodup := by
    refine List.Nodup.map_on (fun c hc c' hc' heq => ?_) (List.Nodup.of_map Change.key T.nodup)
    obtain ⟨hk, hv⟩ := Prod.mk.inj heq
    obtain ⟨hloc', hval⟩ := List.append_inj hv (by rw [hloc c hc, hloc c' hc'])
    refine Change.ext ?_ hval
    rw [← List.take_append_drop (addressLength + incarnationLength) c.key,
      ← List.take_append_drop (addressLength + incarnationLength) c'.key, List.append_cancel_left hk, hloc']
  have hperm : (encodeStorage n T.changes .empty).entries.Perm
      (T.changes.map fun c => (putUint64 n ++ c.key.take (addressLength + incarnationLength),
        c.key.drop (addressLength + incarnationLength) ++ c.value)) := by
    refine (List.perm_ext_iff_of_nodup (DupSort.nodup_entries _) henc).2 fun e => ?_
    rw [mem_encodeStorage, List.mem_map]
    simp only [DupSort.entries_empty, List.not_mem_nil, false_or]
    exact ⟨fun ⟨c, hc, he⟩ => ⟨c, hc, he.symm⟩, fun ⟨c, hc, he⟩ => ⟨c, hc, he.symm⟩⟩
  refine (hperm.map _).trans (List.Perm.of_eq ?_)
  rw [List.map_map]
  exact List.map_congr_left fun c hc => fromDBFormat_encodeStorage n (T.key_length c hc)

/-! ### Lookups -/

/-- Of two strings of one length, one is a prefix of the other only if they are equal. -/
theorem isPrefixOf_of_length_eq {a b : List UInt8} (h : a.length = b.length) : a.isPrefixOf b = decide (a = b) := by
  by_cases hab : a = b
  · subst hab
    simp [List.isPrefixOf_iff_prefix]
  · rw [decide_eq_false hab, Bool.eq_false_iff]
    intro hpre
    exact hab ((List.isPrefixOf_iff_prefix.1 hpre).eq_of_length h)

/-- `FindAccount` finds the account of every address written. -/
theorem findAccount_encodeAccounts {n : UInt64} (S : AccountChanges) {t : DupSort} (ht : HoldsNoBlock t n)
    {c : Change} (hc : c ∈ S.changes) : findAccount (encodeAccounts n S.changes t) n c.key = .ok (some c.value) := by
  have hseek : (encodeAccounts n S.changes t).seekBothRange (encodeBlockNumber n) c.key = some (c.key ++ c.value) := by
    refine DupSort.seekBothRange_of_prefix ((mem_encodeAccounts_block ht).2 ⟨c, hc, rfl⟩) ?_ ?_
    · intro w hw
      obtain ⟨c', hc', rfl⟩ := (mem_encodeAccounts_block ht).1 hw
      simp [S.key_length c hc, S.key_length c' hc']
    · -- the value that starts with the address is the change of that address
      intro w hw heq
      obtain ⟨c', hc', rfl⟩ := (mem_encodeAccounts_block ht).1 hw
      rw [List.take_left' (by rw [S.key_length c' hc', S.key_length c hc])] at heq
      rw [S.eq_of_key_eq hc' hc heq]
  unfold findAccount
  dsimp only
  rw [hseek, Option.getD_some, decodeAccounts_encode n (S.key_length c hc)]
  simp [List.isPrefixOf_iff_prefix]

/-- `FindAccount` finds `nil` for an address that was not written when a written one is above it. -/
theorem findAccount_encodeAccounts_of_lt {n : UInt64} (S : AccountChanges) {t : DupSort} (ht : HoldsNoBlock t n)
    {key : List UInt8} (hkey : key.length = addressLength) (habsent : ∀ c ∈ S.changes, c.key ≠ key)
    (habove : ∃ c ∈ S.changes, key < c.key) : findAccount (encodeAccounts n S.changes t) n key = .ok none := by
  obtain ⟨c, hc, hlt⟩ := habove
  have hge : ¬ c.key ++ c.value < key := by
    rw [append_lt_iff (by rw [S.key_length c hc, hkey])]
    exact List.lt_asymm hlt
  obtain ⟨v, hseek⟩ := DupSort.seekBothRange_isSome ((mem_encodeAccounts_block ht).2 ⟨c, hc, rfl⟩) hge
  -- what the seek finds is the change of another address
  obtain ⟨c', hc', rfl⟩ := (mem_encodeAccounts_block ht).1 (DupSort.seekBothRange_eq_some_iff.1 hseek).1
  unfold findAccount
  dsimp only
  rw [hseek, Option.getD_some, decodeAccounts_encode n (S.key_length c' hc')]
  dsimp only
  rw [isPrefixOf_of_length_eq (by rw [hkey, S.key_length c' hc']), decide_eq_false (habsent c' hc').symm]
  rfl

/-- Above every address of its block, `FindAccount` reports the block's account changes purged instead of
finding `nil`: `SeekBothRange` finds no value and `DecodeAccounts` rejects the empty one. -/
theorem findAccount_above_reports_purged {n : UInt64} (S : AccountChanges) {t : DupSort} (ht : HoldsNoBlock t n)
    {key : List UInt8} (hkey : key.length = addressLength) (habove : ∀ c ∈ S.changes, c.key < key) :
    findAccount (encodeAccounts n S.changes t) n key = .error ("account changes purged for block " ++ toString n) := by
  have hseek : (encodeAccounts n S.changes t).seekBothRange (encodeBlockNumber n) key = none := by
    refine DupSort.seekBothRange_eq_none fun w hw => ?_
    obtain ⟨c, hc, rfl⟩ := (mem_encodeAccounts_block ht).1 hw
    exact append_lt_of_lt (by rw [S.key_length c hc, hkey]) (habove c hc)
  unfold findAccount
  dsimp only
  rw [hseek]
  unfold decodeAccounts
  rw [Option.getD_none, if_pos (by simp), encodeBlockNumber, uint64_putUint64]

/-- The account changes of block 7: one address. -/
def oneAccountChange : AccountChanges where
  changes := [⟨List.replicate 20 0, [1]⟩]
  key_length := by decide
  nodup := by decide

theorem findAccount_above_reports_purged_lastAddress :
    findAccount (encodeAccounts 7 oneAccountChange.changes .empty) 7 (List.replicate 20 0xff) =
      .error ("account changes purged for block " ++ toString (7 : UInt64)) :=
  findAccount_above_reports_purged oneAccountChange (fun _ he => by cases he) rfl (by decide)

theorem findAccount_encodeAccounts_oneAccountChange :
    HoldsNoBlock .empty 7 ∧ (⟨List.replicate 20 0, [1]⟩ : Change) ∈ oneAccountChange.changes ∧
      findAccount (encodeAccounts 7 oneAccountChange.changes .empty) 7 (List.replicate 20 0) = .ok (some [1]) :=
  ⟨(fun _ he => by cases he), List.mem_singleton_self _,
    findAccount_encodeAccounts oneAccountChange (fun _ he => by cases he) (List.mem_singleton_self _)⟩

/-- `FindStorage` finds the value of every key written. -/
theorem findStorage_encodeStorage {n : UInt64} (T : StorageChanges) {t : DupSort} (ht : HoldsNoBlock t n)
    {c : Change} (hc : c ∈ T.changes) : findStorage (encodeStorage n T.changes t) n c.key = .ok c.value := by
  have hloc : (c.key.drop (addressLength + incarnationLength)).length = hashLength := by
    rw [List.length_drop, T.key_length c hc]
    rfl
  have hseek : (encodeStorage n T.changes t).seekBothRange
      (putUint64 n ++ c.key.take (addressLength + incarnationLength)) (c.key.drop (addressLength + incarnationLength)) =
        some (c.key.drop (addressLength + incarnationLength) ++ c.value) := by
    refine DupSort.seekBothRange_of_prefix ((mem_encodeStorage_block ht).2 ⟨c, hc, rfl, rfl⟩) ?_ ?_
    · intro w hw
      obtain ⟨c', hc', -, rfl⟩ := (mem_encodeStorage_block ht).1 hw
      simp [hloc, T.key_length c' hc']
    · -- the value that starts with the location is the change of that address, incarnation and location
      intro w hw heq
      obtain ⟨c', hc', hpre, rfl⟩ := (mem_encodeStorage_block ht).1 hw
      rw [List.take_left' (by rw [hloc, List.length_drop, T.key_length c' hc']; rfl)] at heq
      have hkey : c'.key = c.key := by
        rw [← List.take_append_drop (addressLength + incarnationLength) c'.key, hpre, heq, List.take_append_drop]
      rw [T.eq_of_key_eq hc' hc hkey]
  unfold findStorage
  dsimp only
  rw [hseek, Option.getD_some, List.drop_left' hloc]
  simp [List.isPrefixOf_iff_prefix]

/-- `FindStorage` reports `ErrNotFound` for every key of 54 bytes that was not written, whatever it shares with
the keys written. -/
theorem findStorage_encodeStorage_of_absent {n : UInt64} (T : StorageChanges) {t : DupSort} (ht : HoldsNoBlock t n)
    {k : List UInt8} (hk : k.length = addressLength + incarnationLength + hashLength)
    (habsent : ∀ c ∈ T.changes, c.key ≠ k) : findStorage (encodeStorage n T.changes t) n k = .error errNotFound := by
  have hloc : (k.drop (addressLength + incarnationLength)).length = hashLength := by
    rw [List.length_drop, hk]
    rfl
  -- the location is not a prefix of what the seek finds
  have hnot : (k.drop (addressLength + incarnationLength)).isPrefixOf
      (((encodeStorage n T.changes t).seekBothRange (putUint64 n ++ k.take (addressLength + incarnationLength))
        (k.drop (addressLength + incarnationLength))).getD []) = false := by
    cases hseek : (encodeStorage n T.changes t).seekBothRange (putUint64 n ++ k.take (addressLength + incarnationLength))
        (k.drop (addressLength + incarnationLength)) with
    | none =>
      rw [Option.getD_none, Bool.eq_false_iff]
      intro hpre
      have := (List.isPrefixOf_iff_prefix.1 hpre).length_le
      rw [hloc, List.length_nil] at this
      cases this
    | some v =>
      obtain ⟨c', hc', hpre, rfl⟩ := (mem_encodeStorage_block ht).1 (DupSort.seekBothRange_eq_some_iff.1 hseek).1
      rw [Option.getD_some, Bool.eq_false_iff]
      intro hpre'
      have htake := List.prefix_iff_eq_take.1 (List.isPrefixOf_iff_prefix.1 hpre')
      rw [hloc, List.take_left' (by rw [List.length_drop, T.key_length c' hc']; rfl)] at htake
      apply habsent c' hc'
      rw [← List.take_append_drop (addressLength + incarnationLength) c'.key, hpre, ← htake, List.take_append_drop]
  unfold findStorage
  dsimp only
  rw [hnot]
  rfl

/-- The storage change set of a block reads back: for every key of 54 bytes, `FindStorage` gives the value written
under it, and `ErrNotFound` where nothing was. -/
theorem findStorage_encodeStorage_eq {n : UInt64} (T : StorageChanges) {t : DupSort} (ht : HoldsNoBlock t n)
    {k : List UInt8} (hk : k.length = addressLength + incarnationLength + hashLength) :
    findStorage (encodeStorage n T.changes t) n k =
      (T.changes.find? fun c => c.key == k).elim (.error errNotFound) fun c => .ok c.value := by
  rcases hfind : T.changes.find? (fun c => c.key == k) with _ | c
  · -- no change has the key
    have habsent : ∀ c ∈ T.changes, c.key ≠ k := fun c hc heq => by
      simpa [heq] using List.find?_eq_none.1 hfind c hc
    rw [hfind, Option.elim_none]
    exact findStorage_encodeStorage_of_absent T ht hk habsent
  · have hkey : c.key = k := by simpa using List.find?_some hfind
    rw [hfind, Option.elim_some, ← hkey]
    exact findStorage_encodeStorage T ht (List.mem_of_find?_eq_some hfind)

/-- The storage changes of block 7: one slot of one contract. -/
def oneStorageChange : StorageChanges where
  changes := [⟨List.replicate 54 0, [5]⟩]
  key_length := by decide
  nodup := by decide

theorem findStorage_encodeStorage_eq_oneStorageChange :
    HoldsNoBlock .empty 7 ∧ (List.replicate 54 0).length = addressLength + incarnationLength + hashLength ∧
      findStorage (encodeStorage 7 oneStorageChange.changes .empty) 7 (List.replicate 54 0) =
        (oneStorageChange.changes.find? fun c => c.key == List.replicate 54 0).elim (.error errNotFound)
          fun c => .ok c.value :=
  ⟨(fun _ he => by cases he), rfl, findStorage_encodeStorage_eq oneStorageChange (fun _ he => by cases he) rfl⟩

/-! ### Walking a range of blocks -/

/-- A pair `FromDBFormat` decodes: an account change under the key of its block, or a storage change under its
block, address and incarnation. -/
def Decodes (e : List UInt8 × List UInt8) : Prop :=
  (e.1.length = blockNumLength ∧ addressLength ≤ e.2.length) ∨
    (e.1.length = blockNumLength + addressLength + incarnationLength ∧ hashLength ≤ e.2.length)

theorem Decodes.blockNumLength_le {e : List UInt8 × List UInt8} (h : Decodes e) : blockNumLength ≤ e.1.length := by
  rcases h with ⟨h, -⟩ | ⟨h, -⟩ <;> omega

theorem fromDBFormat_of_decodes {e : List UInt8 × List UInt8} (h : Decodes e) :
    ∃ k v, fromDBFormat e.1 e.2 = .ok (uint64 e.1, k, v) := by
  have h20 : addressLength = 20 := rfl
  have h32 : hashLength = 32 := rfl
  rcases h with ⟨hk, hv⟩ | ⟨hk, hv⟩
  · rw [fromDBFormat, if_pos hk]
    unfold decodeAccounts
    rw [if_neg (by omega)]
    exact ⟨_, _, rfl⟩
  · rw [fromDBFormat, if_neg (by omega)]
    unfold decodeStorage
    rw [if_neg (by omega)]
    exact ⟨_, _, rfl⟩

theorem decodes_encodeAccounts {n : UInt64} (S : AccountChanges) {t : DupSort} (ht : ∀ e ∈ t.entries, Decodes e) :
    ∀ e ∈ (encodeAccounts n S.changes t).entries, Decodes e := by
  intro e he
  rcases mem_encodeAccounts.1 he with he | ⟨c, hc, rfl⟩
  · exact ht e he
  · exact .inl ⟨length_putUint64 n, by simp [S.key_length c hc]⟩

theorem decodes_encodeStorage {n : UInt64} (T : StorageChanges) {t : DupSort} (ht : ∀ e ∈ t.entries, Decodes e) :
    ∀ e ∈ (encodeStorage n T.changes t).entries, Decodes e := by
  intro e he
  rcases mem_encodeStorage.1 he with he | ⟨c, hc, rfl⟩
  · exact ht e he
  · refine .inr ⟨?_, by simp [T.key_length c hc]⟩
    rw [List.length_append, length_putUint64, List.length_take, T.key_length c hc]
    rfl

/-- A key of a block is at or above the key of `fromBlock` exactly when its block is. -/
theorem not_lt_encodeBlockNumber {k : List UInt8} (hk : blockNumLength ≤ k.length) (fromBlock : UInt64) :
    (!decide (k < encodeBlockNumber fromBlock)) = decide (fromBlock ≤ uint64 k) := by
  have hlt := lt_putUint64_iff (v := fromBlock) hk
  by_cases h : k < encodeBlockNumber fromBlock
  · have : ¬ fromBlock ≤ uint64 k := UInt64.not_le.2 (hlt.1 h)
    simp [h, this]
  · have : fromBlock ≤ uint64 k := UInt64.not_lt.1 (mt hlt.2 h)
    simp [h, this]

/-- The blocks only grow along a table of pairs that decode. -/
theorem uint64_le_of_entryLt {e e' : List UInt8 × List UInt8} (he : Decodes e) (he' : Decodes e')
    (hlt : EntryLt e e') : uint64 e.1 ≤ uint64 e'.1 := by
  rcases DupSort.entryLt_iff.1 hlt with h | ⟨h, -⟩
  · exact uint64_le_of_lt he.blockNumLength_le he'.blockNumLength_le h
  · rw [h]
    exact UInt64.le_refl _

theorem forRange_eq_foldlM_filter {σ : Type} (db : DupSort) (hdb : ∀ e ∈ db.entries, Decodes e)
    (fromBlock toBlock : UInt64) (walker : σ → UInt64 → List UInt8 → List UInt8 → Except String σ) (s : σ) :
    forRange db fromBlock toBlock walker s =
      (db.entries.filter fun e => decide (fromBlock ≤ uint64 e.1 ∧ uint64 e.1 < toBlock)).foldlM
        (fun s e => fromDBFormat e.1 e.2 >>= fun r => walker s r.1 r.2.1 r.2.2) s := by
  let stop : List UInt8 × List UInt8 → Bool := fun e => decide (toBlock ≤ uint64 e.1)
  let step : σ → List UInt8 × List UInt8 → Except String σ :=
    fun s e => fromDBFormat e.1 e.2 >>= fun r => walker s r.1 r.2.1 r.2.2
  let seen := db.entries.filter fun e => !decide (e.1 < encodeBlockNumber fromBlock)
  have hseen : ∀ e ∈ seen, e ∈ db.entries := fun e he => (List.mem_filter.1 he).1
  -- the walker stops at the first block at or past `toBlock` and takes a step before it
  let rangeWalker : σ → List UInt8 → List UInt8 → Except String (Bool × σ) := fun s k v =>
    match fromDBFormat k v with
    | .error e => .error e
    | .ok (blockN, k, v) => if blockN ≥ toBlock then .ok (false, s) else (walker s blockN k v).map fun s => (true, s)
  have hw : ∀ e ∈ seen, ∀ s, rangeWalker s e.1 e.2 =
      if stop e then .ok (false, s) else (step s e).map fun s => (true, s) := by
    intro e he s
    obtain ⟨k, v, hdec⟩ := fromDBFormat_of_decodes (hdb e (hseen e he))
    simp only [rangeWalker, stop, step, hdec, bind, Except.bind, ge_iff_le, decide_eq_true_eq]
  have hwalk := @DupSort.walkFrom_eq_foldlM σ rangeWalker stop step seen hw s
  -- before the first block at or past `toBlock` are exactly the pairs of the blocks before it
  have htake : seen.takeWhile (fun e => !stop e) = seen.filter fun e => !stop e := by
    refine SortedList.takeWhile_eq_filter (db.sorted.filter _) fun e he e' he' hlt h => ?_
    have := uint64_le_of_entryLt (hdb e (hseen e he)) (hdb e' (hseen e' he')) hlt
    simp only [stop, Bool.not_eq_true', decide_eq_false_iff_not, UInt64.not_le] at h ⊢
    exact UInt64.lt_of_le_of_lt this h
  unfold forRange DupSort.walk
  rw [DupSort.seek_eq_filter]
  refine hwalk.trans ?_
  rw [htake, List.filter_filter]
  congr 1
  refine List.filter_congr fun e he => ?_
  rw [not_lt_encodeBlockNumber (hdb e he).blockNumLength_le]
  simp only [stop, Bool.decide_and]
  rw [Bool.and_comm, ← decide_not]
  simp only [UInt64.not_le]

/-- `ForRange` hands its walker the decoded pairs of exactly the blocks from `fromBlock` to before `toBlock`, in
the order of the table. -/
theorem forRange_eq_foldlM {σ : Type} (db : DupSort) (hdb : ∀ e ∈ db.entries, Decodes e)
    (fromBlock toBlock : UInt64) (walker : σ → UInt64 → List UInt8 → List UInt8 → Except String σ) (s : σ) :
    forRange db fromBlock toBlock walker s =
      (db.entries.filter fun e => decide (fromBlock ≤ uint64 e.1 ∧ uint64 e.1 < toBlock)).foldlM
        (fun s e => fromDBFormat e.1 e.2 >>= fun r => walker s r.1 r.2.1 r.2.2) s :=
  forRange_eq_foldlM_filter db hdb fromBlock toBlock walker s

/-- A walker that counts the changes it is handed. -/
def countChanges (count : ℕ) (_ : UInt64) (_ _ : List UInt8) : Except String ℕ :=
  .ok (count + 1)

theorem forRange_eq_foldlM_oneAccountChange :
    (∀ e ∈ (encodeAccounts 7 oneAccountChange.changes .empty).entries, Decodes e) ∧
      forRange (encodeAccounts 7 oneAccountChange.changes .empty) 0 10 countChanges 0 =
        ((encodeAccounts 7 oneAccountChange.changes .empty).entries.filter
            fun e => decide (0 ≤ uint64 e.1 ∧ uint64 e.1 < 10)).foldlM
          (fun s e => fromDBFormat e.1 e.2 >>= fun r => countChanges s r.1 r.2.1 r.2.2) 0 :=
  ⟨decodes_encodeAccounts oneAccountChange (fun _ he => by cases he),
    forRange_eq_foldlM _ (decodes_encodeAccounts oneAccountChange (fun _ he => by cases he)) 0 10 countChanges 0⟩

/-! ### Walking what was written -/

/-- Over a table whose pairs all decode to blocks of the range, and decode to a permutation of `rs₀`, `ForRange`
hands its walker the triples of `rs₀`, each once, in the order of the table. -/
theorem forRange_perm_of_decode_perm {σ : Type} {db : DupSort} (hdb : ∀ e ∈ db.entries, Decodes e)
    {fromBlock toBlock : UInt64} (hin : ∀ e ∈ db.entries, fromBlock ≤ uint64 e.1 ∧ uint64 e.1 < toBlock)
    {rs₀ : List (UInt64 × List UInt8 × List UInt8)}
    (hperm : (db.entries.map fun e => fromDBFormat e.1 e.2).Perm (rs₀.map .ok))
    (walker : σ → UInt64 → List UInt8 → List UInt8 → Except String σ) (s : σ) :
    ∃ rs : List (UInt64 × List UInt8 × List UInt8), rs.Perm rs₀ ∧
      forRange db fromBlock toBlock walker s = rs.foldlM (fun s r => walker s r.1 r.2.1 r.2.2) s := by
  -- every pair decodes, since what they decode to are the successes of `rs₀`
  obtain ⟨rs, hrs⟩ := ExceptFold.exists_eq_map_ok fun x hx => by
    obtain ⟨r, -, rfl⟩ := List.mem_map.1 (hperm.subset hx)
    exact ⟨r, rfl⟩
  rw [hrs] at hperm
  refine ⟨rs, (List.map_perm_map_iff fun _ _ h => Except.ok.inj h).1 hperm, ?_⟩
  rw [forRange_eq_foldlM_filter db hdb, List.filter_eq_self.2 fun e he => decide_eq_true (hin e he)]
  exact ExceptFold.foldlM_bind_of_map_eq_ok hrs s

/-- `ForRange` over a range that holds block `n`, on the table `EncodeAccounts` fills for it, hands its walker
every account change of the block once, tagged with the block. -/
theorem forRange_encodeAccounts {σ : Type} (n : UInt64) (S : AccountChanges) {fromBlock toBlock : UInt64}
    (hfrom : fromBlock ≤ n) (hto : n < toBlock)
    (walker : σ → UInt64 → List UInt8 → List UInt8 → Except String σ) (s : σ) :
    ∃ rs : List (UInt64 × List UInt8 × List UInt8), rs.Perm (S.changes.map fun c => (n, c.key, c.value)) ∧
      forRange (encodeAccounts n S.changes .empty) fromBlock toBlock walker s =
        rs.foldlM (fun s r => walker s r.1 r.2.1 r.2.2) s := by
  refine forRange_perm_of_decode_perm (decodes_encodeAccounts S fun _ he => by cases he) (fun e he => ?_) ?_
    walker s
  · obtain ⟨c, -, rfl⟩ := (mem_encodeAccounts.1 he).resolve_left (by simp)
    rw [encodeBlockNumber, uint64_putUint64]
    exact ⟨hfrom, hto⟩
  · rw [List.map_map]
    exact encodeAccounts_decode_perm n S

/-- `ForRange` over a range that holds block `n`, on the table `EncodeStorage` fills for it, hands its walker
every storage change of the block once, tagged with the block. -/
theorem forRange_encodeStorage {σ : Type} (n : UInt64) (T : StorageChanges) {fromBlock toBlock : UInt64}
    (hfrom : fromBlock ≤ n) (hto : n < toBlock)
    (walker : σ → UInt64 → List UInt8 → List UInt8 → Except String σ) (s : σ) :
    ∃ rs : List (UInt64 × List UInt8 × List UInt8), rs.Perm (T.changes.map fun c => (n, c.key, c.value)) ∧
      forRange (encodeStorage n T.changes .empty) fromBlock toBlock walker s =
        rs.foldlM (fun s r => walker s r.1 r.2.1 r.2.2) s := by
  refine forRange_perm_of_decode_perm (decodes_encodeStorage T fun _ he => by cases he) (fun e he => ?_) ?_
    walker s
  · obtain ⟨c, -, rfl⟩ := (mem_encodeStorage.1 he).resolve_left (by simp)
    rw [uint64_putUint64_append]
    exact ⟨hfrom, hto⟩
  · rw [List.map_map]
    exact encodeStorage_decode_perm n T

end AmazeChain.Changeset
