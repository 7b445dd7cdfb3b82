import AmazeChain.State.IntraBlockState
import AmazeChain.Lib.SortSearch
import AmazeChain.Lib.UndoLog

/-!
# Reverting the journal

The `revert` methods of the journal entries (`journal.go`), `journal.revert`, and `RevertToSnapshot`.
A revert that Go would panic on (a nil object, a write to a nil map, a slice below zero, a revision that is
not valid) fails (`none`).  The reverts of the account entries read the object through `getStateObject`,
which may load it from the database, and may even create it and journal the creation, while the journal is
being reverted; `journal.revert` then cuts the journal back to the snapshot's length, entries appended by
the revert included.
-/

namespace AmazeChain.State

variable {Addr Hash : Type} [DecidableEq Addr] [DecidableEq Hash] (env : StateEnv Addr Hash)

namespace IntraBlockState

/-- The revert of an entry that writes the object live at `account`; a nil object panics. -/
def revertObject (s : IntraBlockState Addr Hash) (account : Addr) (f : StateObject Addr Hash → StateObject Addr Hash) :
    Option (IntraBlockState Addr Hash) :=
  match s.getStateObject env account with
  | (some obj, s) => some (s.writeObject account (f obj))
  | (none, _) => none

end IntraBlockState

/-- `revert` of each journal entry. -/
def JournalEntry.revert (entry : JournalEntry Addr Hash) (s : IntraBlockState Addr Hash) :
    Option (IntraBlockState Addr Hash) :=
  match entry with
  | .createObjectChange account =>
    some { s with stateObjects := Function.update s.stateObjects account none,
                  stateObjectsDirty := Function.update s.stateObjectsDirty account false }
  | .resetObjectChange account prev => some (s.setStateObject account prev)
  | .selfdestructChange account prev prevbalance =>
    match s.getStateObject env account with
    | (some obj, s) => some (s.writeObject account ({ obj with selfdestructed := prev }.setBalance prevbalance))
    | (none, s) => some s
  | .balanceChange account prev => s.revertObject env account fun obj => obj.setBalance prev
  | .balanceIncrease account increase =>
    match s.balanceInc account with
    | some bi =>
      let bi := { bi with increase := bi.increase - increase, count := bi.count - 1 }
      some { s with balanceInc := Function.update s.balanceInc account (if bi.count = 0 then none else some bi) }
    | none => some s
  | .balanceIncreaseTransfer account =>
    let bi := (s.balanceInc account).map fun bi => { bi with transferred := false }
    some { s with balanceInc := Function.update s.balanceInc account bi }
  | .nonceChange account prev => s.revertObject env account fun obj => obj.setNonce prev
  | .storageChange account key prevalue => s.revertObject env account fun obj => obj.setState key prevalue
  | .fakeStorageChange account key prevalue =>
    match s.getStateObject env account with
    | (some obj, s) =>
      match obj.fakeStorage with
      | some fake =>
        some (s.writeObject account { obj with fakeStorage := some (Function.update fake key (some prevalue)) })
      | none => none
    | (none, _) => none
  | .codeChange account prevcode prevhash => s.revertObject env account fun obj => obj.setCode prevhash prevcode
  | .refundChange prev => some { s with refund := prev }
  | .addLogChange txhash =>
    let logs := s.logs txhash
    if logs.length = 1 then some { s with logs := Function.update s.logs txhash [], logSize := s.logSize - 1 }
    else if logs = [] then none
    else some { s with logs := Function.update s.logs txhash logs.dropLast, logSize := s.logSize - 1 }
  | .touchChange _ => some s
  | .accessListAddAccountChange address => some { s with accessList := s.accessList.deleteAddress address }
  | .accessListAddSlotChange address slot =>
    (s.accessList.deleteSlot address slot).map fun al => { s with accessList := al }

namespace IntraBlockState

/-- The count `journal.revert` takes back for an entry it reverted; a count that reaches zero is deleted. -/
def undirty (s : IntraBlockState Addr Hash) (entry : JournalEntry Addr Hash) : IntraBlockState Addr Hash :=
  match entry.dirtied with
  | some addr =>
    let n := (s.journalDirties addr).getD 0 - 1
    { s with journalDirties := Function.update s.journalDirties addr (if n = 0 then none else some n) }
  | none => s

omit [DecidableEq Hash] in
theorem undirty_of_dirtied {s : IntraBlockState Addr Hash} {entry : JournalEntry Addr Hash}
    (h : entry.dirtied = none) : s.undirty entry = s := by
  simp [undirty, h]

omit [DecidableEq Hash] in
@[simp] theorem undirty_stateObjects (s : IntraBlockState Addr Hash) (entry : JournalEntry Addr Hash) :
    (s.undirty entry).stateObjects = s.stateObjects := by
  unfold undirty
  split <;> rfl

omit [DecidableEq Hash] in
@[simp] theorem undirty_journal (s : IntraBlockState Addr Hash) (entry : JournalEntry Addr Hash) :
    (s.undirty entry).journal = s.journal := by
  unfold undirty
  split <;> rfl

omit [DecidableEq Hash] in
@[simp] theorem undirty_nextRevisionID (s : IntraBlockState Addr Hash) (entry : JournalEntry Addr Hash) :
    (s.undirty entry).nextRevisionID = s.nextRevisionID := by
  unfold undirty
  split <;> rfl

/-- `journal.revert`: the entries from `snapshot` on are reverted, the last first, each then giving back its
count, and the journal is cut back to them. -/
def revertJournal (s : IntraBlockState Addr Hash) (snapshot : ℕ) : Option (IntraBlockState Addr Hash) :=
  (UndoLog.undoAll (fun entry s => (entry.revert env s).map fun s => s.undirty entry) (s.journal.drop snapshot)
    s).map fun s' => { s' with journal := s'.journal.take snapshot }

/-- The test `sort.Search` runs over the revisions: whether the `i`-th has an id of at least `revid`. -/
def revisionAtLeast (validRevisions : List Revision) (revid : ℕ) (i : ℕ) : Bool :=
  match validRevisions[i]? with
  | some r => decide (revid ≤ r.id)
  | none => true

/-- `RevertToSnapshot`: the revision `revid` is searched for among the valid ones, and reverting to it drops
it and every revision after it. -/
def revertToSnapshot (s : IntraBlockState Addr Hash) (revid : ℕ) : Option (IntraBlockState Addr Hash) :=
  let idx := SortSearch.search s.validRevisions.length (revisionAtLeast s.validRevisions revid)
  match s.validRevisions[idx]? with
  | none => none
  | some r =>
    if r.id ≠ revid then none
    else (s.revertJournal env r.journalIndex).map fun s' => { s' with validRevisions := s.validRevisions.take idx }

end IntraBlockState

end AmazeChain.State
