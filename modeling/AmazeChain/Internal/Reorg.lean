import AmazeChain.Txspool.Tx

/-!
# Reorganising the canonical chain

`BlockChain.reorg` (`internal/blockchain.go`) moves the canonical index from the current head `oldBlock` to
`newBlock`: it steps the longer of the two back to the other's number, then both back to their common
ancestor, writes the blocks of the new branch below `newBlock` as heads, deletes the lookup entries of the
transactions that only the old branch has, and truncates the canonical hashes above the new branch.
`writeHeadBlock` then makes `newBlock` the head.

A block in memory is a `*block.Block` whose header's `Number` is a `*uint256.Int`: `BlockRef` keeps the
address of that `Number` beside the block's fields.  Reading a block decodes a new header (`ReadHeader`), so
every read allocates a new address; `ChainState.alloc` is the next one.  When the new head is not below the
old one, the first loop steps the new branch back while `newBlock.Number64() != oldBlock.Number64()`, which
compares these addresses and not the numbers: no block it reads has the old head's address, so it steps
past the old head's number down to genesis and ends with `newBlock == nil`
(`reorg_rejects_level_or_longer`).

The loops of the source have no bound; here each takes a fuel, and `none` is a run out of fuel.  The errors
of `BeginRw` and `Commit` on a transaction of its own, and the logs, are left out.
-/

namespace AmazeChain.Internal

open Txspool (u64)

/-- The fields of a stored block that `reorg` reads: the header's number, hash and parent hash, and the
hashes of the body's transactions. -/
structure Block (Hash : Type) where
  number : ℕ
  hash : Hash
  parentHash : Hash
  txs : List Hash
  deriving DecidableEq, Repr

/-- A `*block.Block` in memory: its fields and the address of its header's `Number`. -/
structure BlockRef (Hash : Type) where
  block : Block Hash
  numberPtr : ℕ
  deriving DecidableEq, Repr

/-- The tables of the chain database that `reorg` and `writeHeadBlock` read and write: the blocks by number
and hash, `HeaderCanonical`, `TxLookup` and the head block hash. -/
structure ChainDB (Hash : Type) where
  blocks : ℕ → Hash → Option (Block Hash)
  canonical : ℕ → Option Hash
  txLookup : Hash → Option ℕ
  headBlockHash : Option Hash

/-- The chain as `reorg` runs on it: the database, `bc.currentBlock` and the next free address. -/
structure ChainState (Hash : Type) where
  db : ChainDB Hash
  currentBlock : BlockRef Hash
  alloc : ℕ

/-- The errors `reorg` returns. -/
inductive ReorgError where
  | invalidOldChain
  | invalidNewChain
  deriving DecidableEq, Repr

/-- The text of a `reorg` error. -/
def ReorgError.message : ReorgError → String
  | .invalidOldChain => "invalid old chain"
  | .invalidNewChain => "invalid new chain"

/-- `Number64().Uint64() - 1`, in `uint64`. -/
def prevNumber (n : ℕ) : ℕ := (n % u64 + (u64 - 1)) % u64

theorem prevNumber_succ {n : ℕ} (h : n + 1 < u64) : prevNumber (n + 1) = n := by
  unfold prevNumber
  rw [Nat.mod_eq_of_lt h, show n + 1 + (u64 - 1) = n + u64 by unfold u64; omega, Nat.add_mod_right,
    Nat.mod_eq_of_lt (by omega)]

/-- `types.HashDifference(a, b)`: the hashes of `a` that `b` does not have, in order. -/
def hashDifference {Hash : Type} [DecidableEq Hash] (a b : List Hash) : List Hash :=
  a.filter fun hash => hash ∉ b

variable {Hash : Type} [DecidableEq Hash] (zeroHash : Hash)

namespace ChainDB

/-- `rawdb.ReadBlock`: the block stored under a number and a hash, decoded at the address `alloc`. -/
def readBlock (db : ChainDB Hash) (alloc : ℕ) (hash : Hash) (number : ℕ) : Option (BlockRef Hash) × ℕ :=
  match db.blocks number hash with
  | some b => (some ⟨b, alloc⟩, alloc + 1)
  | none => (none, alloc)

/-- `BlockChain.GetBlock`: no block for the zero hash, else `ReadBlock`. -/
def getBlock (db : ChainDB Hash) (alloc : ℕ) (hash : Hash) (number : ℕ) : Option (BlockRef Hash) × ℕ :=
  if hash = zeroHash then (none, alloc) else db.readBlock alloc hash number

/-- `rawdb.WriteBlock`: the header and the body under the block's number and hash. -/
def writeBlock (db : ChainDB Hash) (b : Block Hash) : ChainDB Hash :=
  { db with blocks := fun number hash =>
      if number = b.number % u64 ∧ hash = b.hash then some b else db.blocks number hash }

/-- `ReadCanonicalHash`: the zero hash where no hash is stored. -/
def readCanonicalHash (db : ChainDB Hash) (number : ℕ) : Hash := (db.canonical number).getD zeroHash

/-- `WriteCanonicalHash`. -/
def writeCanonicalHash (db : ChainDB Hash) (hash : Hash) (number : ℕ) : ChainDB Hash :=
  { db with canonical := Function.update db.canonical number (some hash) }

/-- `TruncateCanonicalHash(tx, blockFrom, false)`: no canonical hash from `blockFrom` on. -/
def truncateCanonicalHash (db : ChainDB Hash) (blockFrom : ℕ) : ChainDB Hash :=
  { db with canonical := fun number => if blockFrom ≤ number then none else db.canonical number }

/-- `DeleteTxLookupEntry`. -/
def deleteTxLookupEntry (db : ChainDB Hash) (hash : Hash) : ChainDB Hash :=
  { db with txLookup := Function.update db.txLookup hash none }

end ChainDB

/-- `writeHeadBlock`: write the block, make its hash the head block hash and the canonical hash at its
number, and make it `bc.currentBlock`. -/
def ChainState.writeHeadBlock (bc : ChainState Hash) (b : BlockRef Hash) : ChainState Hash :=
  let db := bc.db.writeBlock b.block
  let db := { db with headBlockHash := some b.block.hash }
  { bc with db := db.writeCanonicalHash b.block.hash (b.block.number % u64), currentBlock := b }

/-! ### The loops of `reorg` -/

/-- The first loop when the old chain is longer: step the old head back to the new head's number,
collecting the abandoned blocks and their transactions. -/
def reduceOld (db : ChainDB Hash) (number : ℕ) :
    ℕ → Option (BlockRef Hash) → List (BlockRef Hash) → List Hash → ℕ →
      Option (Option (BlockRef Hash) × List (BlockRef Hash) × List Hash × ℕ)
  | 0, _, _, _, _ => none
  | fuel + 1, oldBlock, oldChain, deletedTxs, alloc =>
    match oldBlock with
    | some old =>
      if old.block.number % u64 ≠ number % u64 then
        match db.getBlock zeroHash alloc old.block.parentHash (prevNumber old.block.number) with
        | (next, alloc) => reduceOld db number fuel next (oldChain ++ [old]) (deletedTxs ++ old.block.txs) alloc
      else some (oldBlock, oldChain, deletedTxs, alloc)
    | none => some (none, oldChain, deletedTxs, alloc)

/-- The first loop when the new chain is not shorter: step the new head back while its `Number64()` is not
the old head's, collecting the new blocks.  `Number64()` returns a pointer, so this compares addresses. -/
def reduceNew (db : ChainDB Hash) (oldPtr : ℕ) :
    ℕ → Option (BlockRef Hash) → List (BlockRef Hash) → ℕ →
      Option (Option (BlockRef Hash) × List (BlockRef Hash) × ℕ)
  | 0, _, _, _ => none
  | fuel + 1, newBlock, newChain, alloc =>
    match newBlock with
    | some new =>
      if new.numberPtr ≠ oldPtr then
        match db.getBlock zeroHash alloc new.block.parentHash (prevNumber new.block.number) with
        | (next, alloc) => reduceNew db oldPtr fuel next (newChain ++ [new]) alloc
      else some (newBlock, newChain, alloc)
    | none => some (none, newChain, alloc)

/-- The second loop: step both heads back until their hashes meet, collecting both branches and the old
branch's transactions; the common block, the branches, the transactions and the next free address. -/
def findCommon (db : ChainDB Hash) :
    ℕ → BlockRef Hash → BlockRef Hash → List (BlockRef Hash) → List (BlockRef Hash) → List Hash → ℕ →
      Option (Except ReorgError (BlockRef Hash × List (BlockRef Hash) × List (BlockRef Hash) × List Hash × ℕ))
  | 0, _, _, _, _, _, _ => none
  | fuel + 1, oldBlock, newBlock, oldChain, newChain, deletedTxs, alloc =>
    if oldBlock.block.hash = newBlock.block.hash then
      some (.ok (oldBlock, oldChain, newChain, deletedTxs, alloc))
    else
      let oldChain := oldChain ++ [oldBlock]
      let deletedTxs := deletedTxs ++ oldBlock.block.txs
      let newChain := newChain ++ [newBlock]
      match db.readBlock alloc oldBlock.block.parentHash (prevNumber oldBlock.block.number) with
      | (none, _) => some (.error .invalidOldChain)
      | (some oldBlock', alloc) =>
        match db.readBlock alloc newBlock.block.parentHash (prevNumber newBlock.block.number) with
        | (none, _) => some (.error .invalidNewChain)
        | (some newBlock', alloc) => findCommon db fuel oldBlock' newBlock' oldChain newChain deletedTxs alloc

/-- Insert the new branch below its head, lowest block first, each as the head; the chain and the
transactions they add. -/
def insertNewChain (bc : ChainState Hash) (blocks : List (BlockRef Hash)) : ChainState Hash × List Hash :=
  blocks.foldl (fun acc b => (acc.1.writeHeadBlock b, acc.2 ++ b.block.txs)) (bc, [])

/-- The last loop: from `i` on, truncate the canonical hashes while the one at `i` is not the zero hash. -/
def truncateLoop : ℕ → ChainDB Hash → ℕ → Option (ChainDB Hash)
  | 0, _, _ => none
  | fuel + 1, db, i =>
    if db.readCanonicalHash zeroHash i = zeroHash then some db
    else truncateLoop fuel (db.truncateCanonicalHash i) (i + 1)

/-- The first phase of `reorg`: reduce the longer chain to the number of the shorter one.  The two heads
(`none` where a step found no block), the branches, the old branch's transactions and the next free
address. -/
def reduceLonger (fuel : ℕ) (db : ChainDB Hash) (oldBlock newBlock : BlockRef Hash) (alloc : ℕ) :
    Option (Option (BlockRef Hash) × Option (BlockRef Hash) × List (BlockRef Hash) × List (BlockRef Hash) ×
      List Hash × ℕ) :=
  if newBlock.block.number % u64 < oldBlock.block.number % u64 then
    (reduceOld zeroHash db newBlock.block.number fuel (some oldBlock) [] [] alloc).map
      fun (oldBlock', oldChain, deletedTxs, alloc) => (oldBlock', some newBlock, oldChain, [], deletedTxs, alloc)
  else
    (reduceNew zeroHash db oldBlock.numberPtr fuel (some newBlock) [] alloc).map
      fun (newBlock', newChain, alloc) => (some oldBlock, newBlock', [], newChain, [], alloc)

/-- `BlockChain.reorg(tx, oldBlock, newBlock)`. -/
def reorg (fuel : ℕ) (bc : ChainState Hash) (oldBlock newBlock : BlockRef Hash) :
    Option (Except ReorgError (ChainState Hash)) :=
  (reduceLonger zeroHash fuel bc.db oldBlock newBlock bc.alloc).bind fun
    | (none, _, _, _, _, _) => some (.error .invalidOldChain)
    | (_, none, _, _, _, _) => some (.error .invalidNewChain)
    | (some oldBlock, some newBlock, oldChain, newChain, deletedTxs, alloc) =>
      (findCommon bc.db fuel oldBlock newBlock oldChain newChain deletedTxs alloc).bind fun
        | .error e => some (.error e)
        | .ok (commonBlock, _, newChain, deletedTxs, alloc) =>
          let (bc, addedTxs) := insertNewChain { bc with alloc } (newChain.drop 1).reverse
          -- delete the lookup entries of the transactions only the old branch has
          let db := (hashDifference deletedTxs addedTxs).foldl ChainDB.deleteTxLookupEntry bc.db
          let number := match newChain with
            | _ :: b :: _ => b.block.number % u64
            | _ => commonBlock.block.number % u64
          (truncateLoop zeroHash fuel db (number + 1)).map fun db => .ok { bc with db }

/-! ### A new head that is not below the old one -/

/-- A block whose ancestry is stored: genesis, at number 0 with the zero parent hash, or a block whose parent
is stored under the number below it and the parent hash, and has a stored ancestry. -/
inductive Descends (db : ChainDB Hash) : Block Hash → Prop
  | genesis {b : Block Hash} (hnum : b.number = 0) (hparent : b.parentHash = zeroHash) : Descends db b
  | child {b p : Block Hash} (hnum : b.number = p.number + 1) (hp : db.blocks p.number b.parentHash = some p)
      (hdesc : Descends db p) : Descends db b

/-- The loop over the new branch never meets the old head's address: every block it reads is at a new
address, so it ends on a missing block, one step after genesis at the latest. -/
theorem reduceNew_ends_nil (db : ChainDB Hash) {oldPtr : ℕ} {b : Block Hash} (hdesc : Descends zeroHash db b)
    (hsmall : b.number < u64) : ∀ {fuel ptr alloc} (newChain : List (BlockRef Hash)), ptr ≠ oldPtr →
      oldPtr < alloc → b.number + 2 ≤ fuel →
      ∃ chain alloc', reduceNew zeroHash db oldPtr fuel (some ⟨b, ptr⟩) newChain alloc = some (none, chain, alloc') := by
  induction hdesc with
  | @genesis b hnum hparent =>
    intro fuel ptr alloc newChain hptr _ hfuel
    obtain ⟨fuel, rfl⟩ : ∃ f, fuel = f + 2 := ⟨fuel - 2, by omega⟩
    -- genesis's parent is the zero hash, for which `GetBlock` returns nil
    refine ⟨newChain ++ [⟨b, ptr⟩], alloc, ?_⟩
    simp [reduceNew, hptr, ChainDB.getBlock, hparent]
  | @child b p hnum hp _ ih =>
    intro fuel ptr alloc newChain hptr hold hfuel
    obtain ⟨fuel, rfl⟩ : ∃ f, fuel = f + 1 := ⟨fuel - 1, by omega⟩
    by_cases hzero : b.parentHash = zeroHash
    · refine ⟨newChain ++ [⟨b, ptr⟩], alloc, ?_⟩
      cases fuel with
      | zero => omega
      | succ fuel => simp [reduceNew, hptr, ChainDB.getBlock, hzero]
    · -- the parent is read at the next free address, which is not the old head's
      have hread : db.getBlock zeroHash alloc b.parentHash (prevNumber b.number) = (some ⟨p, alloc⟩, alloc + 1) := by
        rw [hnum, prevNumber_succ (by omega)]
        simp [ChainDB.getBlock, hzero, ChainDB.readBlock, hp]
      obtain ⟨chain, alloc', h⟩ := @ih (by omega) fuel alloc (alloc + 1) (newChain ++ [⟨b, ptr⟩])
        (Nat.ne_of_gt hold) (by omega) (by omega)
      exact ⟨chain, alloc', by simp only [reduceNew, ne_eq, hptr, not_false_eq_true, ↓reduceIte, hread, h]⟩

/-- A reorganisation to a head that is not below the old one, and is another block in memory, fails with
"invalid new chain" whenever the new head's ancestry is stored and the fuel lasts. -/
theorem reorg_rejects_level_or_longer (bc : ChainState Hash) {oldBlock newBlock : BlockRef Hash}
    (hold : oldBlock.numberPtr < bc.alloc) (hptr : newBlock.numberPtr ≠ oldBlock.numberPtr)
    (hnum : oldBlock.block.number ≤ newBlock.block.number) (hsmall : newBlock.block.number < u64)
    (hdesc : Descends zeroHash bc.db newBlock.block) {fuel : ℕ} (hfuel : newBlock.block.number + 2 ≤ fuel) :
    reorg zeroHash fuel bc oldBlock newBlock = some (.error .invalidNewChain) := by
  obtain ⟨chain, alloc', h⟩ := reduceNew_ends_nil zeroHash bc.db hdesc hsmall [] hptr hold hfuel
  have hbranch : ¬ newBlock.block.number % u64 < oldBlock.block.number % u64 := by
    rw [Nat.mod_eq_of_lt hsmall, Nat.mod_eq_of_lt (by omega)]
    omega
  simp only [reorg, reduceLonger, hbranch, ↓reduceIte, h, Option.map_some, Option.bind_some]

/-- Genesis (hash 1), the canonical block 1 (hash 2), and a side branch over genesis of blocks 1 and 2
(hashes 3 and 4), with one transaction each. -/
def sideBranchDB : ChainDB ℕ where
  blocks := fun number hash => match number, hash with
    | 0, 1 => some ⟨0, 1, 0, []⟩
    | 1, 2 => some ⟨1, 2, 1, [12]⟩
    | 1, 3 => some ⟨1, 3, 1, [13]⟩
    | 2, 4 => some ⟨2, 4, 3, [14]⟩
    | _, _ => none
  canonical := fun number => match number with
    | 0 => some 1
    | 1 => some 2
    | _ => none
  txLookup := fun hash => if hash = 12 ∨ hash = 13 then some 1 else if hash = 14 then some 2 else none
  headBlockHash := some 2

/-- The chain at block 1 of the canonical branch, at address 0, with the side branch's head at address 1. -/
def sideBranchChain : ChainState ℕ := ⟨sideBranchDB, ⟨⟨1, 2, 1, [12]⟩, 0⟩, 2⟩

theorem reorg_rejects_level_or_longer_sideBranch :
    reorg 0 4 sideBranchChain sideBranchChain.currentBlock ⟨⟨2, 4, 3, [14]⟩, 1⟩ = some (.error .invalidNewChain) :=
  reorg_rejects_level_or_longer 0 sideBranchChain (by decide) (by decide) (by decide) (by decide)
    (.child (p := ⟨1, 3, 1, [13]⟩) rfl rfl (.child (p := ⟨0, 1, 0, []⟩) rfl rfl (.genesis rfl rfl))) (by decide)

end AmazeChain.Internal
