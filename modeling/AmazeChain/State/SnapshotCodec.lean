import AmazeChain.State.Entire
import AmazeChain.Rlp.TypedDecode

/-!
# The snapshot on the wire

The miner ends its snapshot with `WrittenSnapshot` (`modules/state/intra_block_state.go`): it sorts the items by key,
sets `OutHash` and returns `rlp.EncodeToBytes` of the snapshot.  The verifier's `ReadSnapshotData`
(`modules/state/entire.go`) decodes those bytes with `rlp.DecodeBytes` into a new readable snapshot and indexes its
items.  The codec sees a `*Snapshot` as the struct of its exported fields (`snapshotTy`): `Items`, a slice of
`*Item`, each the struct of `Key` and `Value`, and `OutHash`, an array of 32 bytes.  The index maps, `written` and
`getOneFun` are not exported, so they are neither written nor read.

The verifier reads what the miner wrote (`readSnapshotDataBytes_writtenSnapshot`): the items in the order the sort
left them, each indexed at its position, and the out hash.
-/

namespace AmazeChain.State

open Rlp

/-- An item as the codec writes it: the struct of its key and its value. -/
def Item.toDyn (it : Item) : Dyn := .list [.bytes it.key, .bytes it.value]

/-- The item that the struct decoder sets from a decoded value; the decoder of `itemTy` returns only that shape. -/
def Item.ofDyn : Dyn → Item
  | .list [.bytes key, .bytes value] => ⟨key, value⟩
  | _ => ⟨[], []⟩

namespace Snapshot

/-- The type the codec sees for `*Item`. -/
def itemTy : Ty := .ptr (.struct [("Key", .bytes), ("Value", .bytes)])

/-- The type the codec sees for `*Snapshot`. -/
def snapshotTy : Ty := .ptr (.struct [("Items", .slice itemTy), ("OutHash", .byteArray Common.hashLength)])

/-- The exported fields of a snapshot as the codec writes them. -/
def toDyn (items : List Item) (outHash : Common.Hash) : Dyn :=
  .list [.list (items.map Item.toDyn), .byteArray outHash.toList]

/-- The items and the out hash that the struct decoder sets from a decoded value of `snapshotTy`. -/
def fieldsOfDyn : Dyn → List Item × Common.Hash
  | .list [.list items, .byteArray h] =>
    (items.map Item.ofDyn, if hh : h.length = Common.hashLength then ⟨h, hh⟩ else Utils.zeroBytes Common.hashLength)
  | _ => ([], Utils.zeroBytes Common.hashLength)

/-- `WrittenSnapshot(hash)` on the state's snapshot, with `sorted` the order `sort.Sort` left its items in (by key;
items of one key in an order the sort does not specify): the bytes of `EncodeToBytes` of the snapshot with `OutHash`
set, for a written snapshot, and nil for none or a read one. -/
def writtenSnapshot (snap : Option Snapshot) (sorted : List Item) (hash : Common.Hash) : Option (List UInt8) :=
  match snap with
  | some s => if s.written then some (toDyn sorted hash).encodeToBytes else none
  | none => none

/-- `ReadSnapshotData`: no data is a new readable snapshot; other data is decoded by `rlp.DecodeBytes` into a new
readable snapshot, whose items are then indexed.  The out hash comes with it: `NewReadableSnapshot` sets it to
`emptyCodeHashH`, and the decoder sets the decoded one. -/
def readSnapshotDataBytes (emptyCodeHash : Common.Hash) (data : List UInt8) :
    Option (Except RlpError (Snapshot × Common.Hash)) :=
  if data.length = 0 then some (.ok (newReadableSnapshot, emptyCodeHash))
  else
    match decodeBytesInto snapshotTy "*state.Snapshot" data with
    | none => none
    | some (.error e) => some (.error e)
    | some (.ok d) => some (.ok (readSnapshotData (fieldsOfDyn d).1, (fieldsOfDyn d).2))

/-! ### The round trip -/

theorem toDyn_hasType (items : List Item) (hash : Common.Hash) : (toDyn items hash).HasType snapshotTy := by
  refine .ptr (.struct rfl fun p hp => ?_)
  simp only [List.zip_cons_cons, List.zip_nil_right, List.mem_cons, List.not_mem_nil, or_false] at hp
  rcases hp with rfl | rfl
  · -- each item is the struct of two byte slices
    refine .slice fun d hd => ?_
    obtain ⟨it, -, rfl⟩ := List.mem_map.1 hd
    refine .ptr (.struct rfl fun q hq => ?_)
    simp only [List.zip_cons_cons, List.zip_nil_right, List.mem_cons, List.not_mem_nil, or_false] at hq
    rcases hq with rfl | rfl <;> exact .bytes _
  · have := Dyn.HasType.byteArray hash.toList
    rwa [List.Vector.toList_length] at this

/-- A snapshot holds no one-byte array: its items are slices, and `OutHash` has 32 bytes. -/
theorem holdsZeroByte_toDyn (items : List Item) (hash : Common.Hash) : (toDyn items hash).holdsZeroByte = false := by
  have hitems : ∀ items : List Item, Dyn.anyHoldsZeroByte (items.map Item.toDyn) = false := by
    intro items
    induction items with
    | nil => rfl
    | cons it items ih =>
      rw [List.map_cons, Dyn.anyHoldsZeroByte, ih]
      rfl
  have hhash : decide (hash.toList = [0]) = false := by
    rw [decide_eq_false_iff_not]
    intro h
    have := congrArg List.length h
    rw [List.Vector.toList_length] at this
    exact absurd this (by decide)
  simp only [toDyn, Dyn.holdsZeroByte, Dyn.anyHoldsZeroByte, hitems, hhash, Bool.or_false]

theorem fieldsOfDyn_toDyn (items : List Item) (hash : Common.Hash) : fieldsOfDyn (toDyn items hash) = (items, hash) := by
  have hitems : (items.map Item.toDyn).map Item.ofDyn = items := by
    rw [List.map_map]
    exact List.map_id'' (fun _ => rfl) items
  simp only [toDyn, fieldsOfDyn, hitems, Prod.mk.injEq, true_and]
  -- the decoded array has the length of the hash, so the decoder sets it whole
  exact dif_pos (List.Vector.toList_length hash)

/-- Indexing the items keeps them. -/
theorem indexItems_items (s : Snapshot) : s.indexItems.items = s.items := by
  unfold indexItems
  suffices ∀ (l : List (Item × ℕ)) (t : Snapshot), (l.foldl indexItem t).items = t.items from this _ _
  intro l
  induction l with
  | nil => exact fun _ => rfl
  | cons v l ih => exact fun t => by rw [List.foldl_cons, ih, indexItem_items]

/-- What the verifier reads back from the bytes `WrittenSnapshot` returns is what the miner wrote: the items in the
order the sort left them, each indexed at its position, and the out hash. -/
theorem readSnapshotDataBytes_writtenSnapshot (emptyCodeHash : Common.Hash) {s : Snapshot} (hw : s.written = true)
    (sorted : List Item) (hash : Common.Hash) (h64 : (toDyn sorted hash).toValue.encode.length < 2 ^ 64) :
    ∃ data, writtenSnapshot (some s) sorted hash = some data ∧
      readSnapshotDataBytes emptyCodeHash data = some (.ok (readSnapshotData sorted, hash)) ∧
      (readSnapshotData sorted).items = sorted ∧ (readSnapshotData sorted).PointsAtItems := by
  refine ⟨_, by rw [writtenSnapshot, if_pos hw], ?_, indexItems_items _, indexItems_pointsAtItems _⟩
  have hdec := decodeBytesInto_encode (toDyn_hasType sorted hash) (holdsZeroByte_toDyn sorted hash)
    "*state.Snapshot" h64
  -- the bytes are the encoding of the snapshot's RLP value, which is never empty
  rw [Dyn.encodeToBytes_eq _ h64]
  have hne : (toDyn sorted hash).toValue.encode.length ≠ 0 := Nat.pos_iff_ne_zero.1 (length_encode_pos _)
  rw [readSnapshotDataBytes, if_neg hne, hdec]
  dsimp only
  rw [fieldsOfDyn_toDyn]

/-- A written snapshot of one storage item, sorted, with a zero out hash. -/
theorem readSnapshotDataBytes_writtenSnapshot_oneItem :
    (⟨[⟨[1, 2], [3]⟩], ∅, ∅, true⟩ : Snapshot).written = true ∧
      (toDyn [⟨[1, 2], [3]⟩] (Utils.zeroBytes 32)).toValue.encode.length < 2 ^ 64 ∧
      ∃ data, writtenSnapshot (some ⟨[⟨[1, 2], [3]⟩], ∅, ∅, true⟩) [⟨[1, 2], [3]⟩] (Utils.zeroBytes 32) = some data ∧
        readSnapshotDataBytes (Utils.zeroBytes 32) data =
          some (.ok (readSnapshotData [⟨[1, 2], [3]⟩], Utils.zeroBytes 32)) ∧
        (readSnapshotData [⟨[1, 2], [3]⟩]).items = [⟨[1, 2], [3]⟩] ∧ (readSnapshotData [⟨[1, 2], [3]⟩]).PointsAtItems :=
  ⟨rfl, by decide, readSnapshotDataBytes_writtenSnapshot (Utils.zeroBytes 32) rfl _ _ (by decide)⟩

end Snapshot

end AmazeChain.State
