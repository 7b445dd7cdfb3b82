import AmazeChain.State.Frame

/-!
# What a revert restores

The journal view (`JournalView`: the refund counter, the logs and the access list) has an undo of its own
for each entry, `undoView`: the entries of the refund, of the logs and of the access list undo their
change, and the account entries leave the view alone.  The revert of an entry is seen in the view as its
undo (`undoView_revert`), so `UndoLog.undoAll_view` carries what the view's undo does to the whole revert.

Every call appends entries that undo it in the view (`ViewStep`), from a well-formed access list: a call on
an account appends only account entries, and the others undo exactly what they did.  So after a snapshot,
whatever calls follow, the journal after the snapshot undoes the view to the one of the snapshot
(`Undoable.run`), and `RevertToSnapshot`, when it returns, restores the refund counter, the logs, the access
list, the journal and the valid revisions (`revertToSnapshot_restores_journalView`).

The accounts are another matter.  An increase of an account not yet read waits in `balanceInc`; a read of the
account loads it from the database, unjournaled, and moves the increase into it, journaling only the
transfer.  The revert of the transfer marks the increase as not transferred, and the revert of the increase
takes it out of `balanceInc`, but the loaded object keeps the increased balance: after the revert the
account reads with the increase (`revertToSnapshot_keeps_read_increase`).
-/

namespace AmazeChain.State

variable {Addr Hash : Type} [DecidableEq Addr] [DecidableEq Hash] (env : StateEnv Addr Hash)

set_option linter.unusedSectionVars false

/-- The revert of an entry, as the journal view sees it. -/
def JournalEntry.undoView : JournalEntry Addr Hash → JournalView Addr Hash → Option (JournalView Addr Hash)
  | .refundChange prev, v => some { v with refund := prev }
  | .addLogChange txhash, v =>
    let logs := v.logs txhash
    if logs.length = 1 then some { v with logs := Function.update v.logs txhash [], logSize := v.logSize - 1 }
    else if logs = [] then none
    else some { v with logs := Function.update v.logs txhash logs.dropLast, logSize := v.logSize - 1 }
  | .accessListAddAccountChange address, v => some { v with accessList := v.accessList.deleteAddress address }
  | .accessListAddSlotChange address slot, v =>
    (v.accessList.deleteSlot address slot).map fun al => { v with accessList := al }
  | _, v => some v

/-- Giving back a count leaves the journal view alone. -/
theorem IntraBlockState.undirty_journalView (s : IntraBlockState Addr Hash) (e : JournalEntry Addr Hash) :
    (s.undirty e).journalView = s.journalView := by
  unfold IntraBlockState.undirty
  split <;> rfl

namespace JournalEntry

theorem undoView_of_isAccountEntry {e : JournalEntry Addr Hash} (he : e.isAccountEntry = true)
    (v : JournalView Addr Hash) : e.undoView v = some v := by
  cases e <;> first | rfl | cases he

/-- The revert of an entry refines its undo in the view. -/
theorem undoView_revert {e : JournalEntry Addr Hash} {s s' : IntraBlockState Addr Hash}
    (h : e.revert env s = some s') : e.undoView s.journalView = some s'.journalView := by
  cases he : e.isAccountEntry
  · cases e with
    | refundChange prev =>
      cases h
      rfl
    | addLogChange txhash =>
      simp only [revert] at h
      simp only [undoView, IntraBlockState.journalView]
      by_cases h₁ : (s.logs txhash).length = 1
      · simp only [h₁, ↓reduceIte, Option.some.injEq] at h ⊢
        subst h
        rfl
      · by_cases h₂ : s.logs txhash = []
        · simp [h₂] at h
        · simp only [h₁, h₂, ↓reduceIte, Option.some.injEq] at h ⊢
          subst h
          rfl
    | accessListAddAccountChange address =>
      cases h
      rfl
    | accessListAddSlotChange address slot =>
      simp only [revert] at h
      obtain ⟨al, hal, rfl⟩ := Option.map_eq_some_iff.1 h
      simp [undoView, IntraBlockState.journalView, hal]
    | _ => cases he
  · rw [(IntraBlockState.accountStep_revert env he h).view]
    exact undoView_of_isAccountEntry he _

/-- A revert only appends to the journal. -/
theorem revert_journal {e : JournalEntry Addr Hash} {s s' : IntraBlockState Addr Hash}
    (h : e.revert env s = some s') : ∃ G, s'.journal = s.journal ++ G := by
  cases he : e.isAccountEntry
  · -- the entries of the view leave the journal as it is
    refine ⟨[], ?_⟩
    cases e with
    | refundChange prev => cases h; simp
    | addLogChange txhash =>
      simp only [revert] at h
      by_cases h₁ : (s.logs txhash).length = 1
      · simp only [h₁, ↓reduceIte, Option.some.injEq] at h
        subst h
        simp
      · by_cases h₂ : s.logs txhash = []
        · simp [h₂] at h
        · simp only [h₁, h₂, ↓reduceIte, Option.some.injEq] at h
          subst h
          simp
    | accessListAddAccountChange address => cases h; simp
    | accessListAddSlotChange address slot =>
      simp only [revert] at h
      obtain ⟨al, -, rfl⟩ := Option.map_eq_some_iff.1 h
      simp
    | _ => cases he
  · obtain ⟨G, hG, -⟩ := (IntraBlockState.accountStep_revert env he h).journal
    exact ⟨G, hG⟩

theorem undoView_revertStep {e : JournalEntry Addr Hash} {s s' : IntraBlockState Addr Hash}
    (h : (e.revert env s).map (fun s => s.undirty e) = some s') : e.undoView s.journalView = some s'.journalView := by
  obtain ⟨t, ht, rfl⟩ := Option.map_eq_some_iff.1 h
  rw [IntraBlockState.undirty_journalView]
  exact undoView_revert env ht

theorem revertStep_journal {e : JournalEntry Addr Hash} {s s' : IntraBlockState Addr Hash}
    (h : (e.revert env s).map (fun s => s.undirty e) = some s') : ∃ G, s'.journal = s.journal ++ G := by
  obtain ⟨t, ht, rfl⟩ := Option.map_eq_some_iff.1 h
  rw [IntraBlockState.undirty_journal]
  exact revert_journal env ht

end JournalEntry

namespace IntraBlockState

/-- A call from `s` to `s'`: the entries it appends undo it in the view. -/
structure ViewStep (s s' : IntraBlockState Addr Hash) : Prop where
  journal : ∃ F, s'.journal = s.journal ++ F ∧
    UndoLog.undoAll JournalEntry.undoView F s'.journalView = some s.journalView
  validRevisions : s'.validRevisions = s.validRevisions

theorem AccountStep.viewStep {s s' : IntraBlockState Addr Hash} (h : AccountStep s s') : ViewStep s s' := by
  obtain ⟨F, hF, hacc⟩ := h.journal
  refine ⟨⟨F, hF, ?_⟩, h.validRevisions⟩
  rw [h.view]
  exact UndoLog.undoAll_of_forall fun e he => JournalEntry.undoView_of_isAccountEntry (hacc e he) _

/-- A call that journals one entry, undone in the view. -/
theorem viewStep_append {s s' : IntraBlockState Addr Hash} {e : JournalEntry Addr Hash}
    (hj : s'.journal = s.journal ++ [e]) (hv : e.undoView s'.journalView = some s.journalView)
    (hr : s'.validRevisions = s.validRevisions) : ViewStep s s' :=
  ⟨⟨[e], hj, hv⟩, hr⟩

theorem viewStep_addLog (s : IntraBlockState Addr Hash) (log : Log Addr Hash) : ViewStep s (s.addLog log) := by
  refine viewStep_append rfl ?_ rfl
  simp only [addLog, journalView, JournalEntry.undoView, Function.update_self, List.length_append,
    List.length_singleton]
  -- the log appended is the one dropped; the list it joined was empty or is left as it was
  by_cases hnil : s.logs s.thash = []
  · simp [hnil, append, Function.update_idem, Function.update_eq_self_iff]
  · simp [hnil, append, Function.update_idem]

theorem viewStep_addAddressToAccessList (s : IntraBlockState Addr Hash) (addr : Addr) :
    ViewStep s (s.addAddressToAccessList addr) := by
  unfold addAddressToAccessList
  rcases hadd : s.accessList.addAddress addr with ⟨_ | _, al⟩
  · -- an address already in the list: nothing changes
    have hal : al = s.accessList := by
      unfold AccessList.addAddress at hadd
      split_ifs at hadd
      · exact (Prod.mk.inj hadd).2.symm
      · exact absurd (Prod.mk.inj hadd).1 (by decide)
    subst hal
    exact ⟨⟨[], by simp, rfl⟩, rfl⟩
  · refine viewStep_append rfl ?_ rfl
    simp only [journalView, JournalEntry.undoView, append, ↓reduceIte, AccessList.deleteAddress_addAddress hadd]

theorem viewStep_addSlotToAccessList {s s' : IntraBlockState Addr Hash} {addr : Addr} {slot : Hash}
    (hwf : s.accessList.WF) (h : s.addSlotToAccessList addr slot = some s') : ViewStep s s' := by
  unfold addSlotToAccessList at h
  obtain ⟨⟨⟨addrMod, slotMod⟩, al⟩, hadd, rfl⟩ := Option.map_eq_some_iff.1 h
  have hundo := AccessList.undo_addSlot hwf hadd
  -- the entries journaled follow the two answers of `AddSlot`; they undo in reverse order
  cases addrMod <;> cases slotMod
  · simp only [Bool.false_eq_true, ↓reduceIte, Option.map_some, Option.some.injEq] at hundo
    subst hundo
    exact ⟨⟨[], by simp, rfl⟩, rfl⟩
  · simp only [Bool.false_eq_true, ↓reduceIte, Option.map_id'] at hundo
    refine viewStep_append rfl ?_ rfl
    simp [journalView, JournalEntry.undoView, append, hundo]
  · simp only [Bool.false_eq_true, ↓reduceIte, Option.map_some, Option.some.injEq] at hundo
    refine viewStep_append rfl ?_ rfl
    simp [journalView, JournalEntry.undoView, append, hundo]
  · simp only [↓reduceIte] at hundo
    obtain ⟨al', hal', hdel⟩ := Option.map_eq_some_iff.1 hundo
    refine ⟨⟨[.accessListAddAccountChange addr, .accessListAddSlotChange addr slot], by simp [append], ?_⟩, rfl⟩
    simp [UndoLog.undoAll_cons, journalView, JournalEntry.undoView, append, hal', hdel]

theorem viewStep_call {s s' : IntraBlockState Addr Hash} {c : Call Addr Hash} (hwf : s.accessList.WF)
    (h : s.call env c = some s') : ViewStep s s' := by
  cases hc : c.isAccountCall
  · cases c with
    | addRefund gas => cases h; exact viewStep_append rfl rfl rfl
    | subRefund gas => cases h; exact viewStep_append rfl rfl rfl
    | addLog log => cases h; exact viewStep_addLog s log
    | addAddressToAccessList addr => cases h; exact viewStep_addAddressToAccessList s addr
    | addSlotToAccessList addr slot => exact viewStep_addSlotToAccessList hwf h
    | _ => cases hc
  · exact (accountStep_call env hc h).viewStep

theorem wf_call {s s' : IntraBlockState Addr Hash} {c : Call Addr Hash} (hwf : s.accessList.WF)
    (h : s.call env c = some s') : s'.accessList.WF := by
  cases hc : c.isAccountCall
  · cases c with
    | addRefund gas => cases h; exact hwf
    | subRefund gas => cases h; exact hwf
    | addLog log => cases h; exact hwf
    | addAddressToAccessList addr =>
      cases h
      have := hwf.addAddress addr
      unfold addAddressToAccessList
      rcases hadd : s.accessList.addAddress addr with ⟨_ | _, al⟩ <;> simpa [hadd, append] using this
    | addSlotToAccessList addr slot =>
      unfold call addSlotToAccessList at h
      obtain ⟨⟨⟨addrMod, slotMod⟩, al⟩, hadd, rfl⟩ := Option.map_eq_some_iff.1 h
      have := hwf.addSlot hadd
      cases addrMod <;> cases slotMod <;> exact this
    | _ => cases hc
  · have hview := congrArg JournalView.accessList (accountStep_call env hc h).view
    simp only [journalView] at hview
    rw [hview]
    exact hwf

/-- After a snapshot of the journal `J₀` and the view `v₀`: the entries after `J₀` undo the view to `v₀`. -/
structure Undoable (J₀ : List (JournalEntry Addr Hash)) (v₀ : JournalView Addr Hash) (revs : List Revision)
    (s : IntraBlockState Addr Hash) : Prop where
  journal : ∃ F, s.journal = J₀ ++ F ∧ UndoLog.Restores JournalEntry.undoView F s.journalView v₀
  wf : s.accessList.WF
  validRevisions : s.validRevisions = revs

theorem Undoable.call {J₀ : List (JournalEntry Addr Hash)} {v₀ : JournalView Addr Hash} {revs : List Revision}
    {s s' : IntraBlockState Addr Hash} {c : Call Addr Hash} (hs : Undoable J₀ v₀ revs s)
    (h : s.call env c = some s') : Undoable J₀ v₀ revs s' := by
  obtain ⟨F, hF, hrestores⟩ := hs.journal
  have hstep := viewStep_call env hs.wf h
  obtain ⟨F', hF', hundo⟩ := hstep.journal
  exact ⟨⟨F ++ F', by rw [hF', hF, List.append_assoc], hrestores.append hundo⟩, wf_call env hs.wf h,
    hstep.validRevisions.trans hs.validRevisions⟩

/-- A run of calls keeps the journal undoable, call by call. -/
theorem Undoable.run {J₀ : List (JournalEntry Addr Hash)} {v₀ : JournalView Addr Hash} {revs : List Revision} :
    ∀ {calls : List (Call Addr Hash)} {s s' : IntraBlockState Addr Hash}, Undoable J₀ v₀ revs s →
      s.run env calls = some s' → Undoable J₀ v₀ revs s'
  | [], s, s', hs, h => by
    cases h
    exact hs
  | c :: calls, s, s', hs, h => by
    rw [IntraBlockState.run, Option.bind_eq_some_iff] at h
    obtain ⟨t, ht, hrun⟩ := h
    exact Undoable.run (hs.call env ht) hrun

/-- The snapshot's revision is the last valid one, above every id before it: the search finds it. -/
theorem revisionAtLeast_append {revs : List Revision} {id : ℕ} (hlt : ∀ r ∈ revs, r.id < id) (k i : ℕ) :
    revisionAtLeast (revs ++ [⟨id, k⟩]) id i = decide (revs.length ≤ i) := by
  unfold revisionAtLeast
  rcases Nat.lt_or_ge i revs.length with hi | hi
  · rw [List.getElem?_append_left hi, List.getElem?_eq_getElem hi]
    have := hlt _ (List.getElem_mem hi)
    simp only [decide_eq_decide]
    omega
  · rw [List.getElem?_append_right hi]
    rcases Nat.lt_or_ge (i - revs.length) 1 with hj | hj
    · have : i - revs.length = 0 := by omega
      simp [this, hi]
    · rw [List.getElem?_eq_none (by simpa using hj)]
      simp [hi]

theorem revertToSnapshot_of_last {s : IntraBlockState Addr Hash} {revs : List Revision} {id k : ℕ}
    (hrevs : s.validRevisions = revs ++ [⟨id, k⟩]) (hlt : ∀ r ∈ revs, r.id < id) :
    s.revertToSnapshot env id = (s.revertJournal env k).map fun s' => { s' with validRevisions := revs } := by
  have hf := revisionAtLeast_append hlt k
  have hmono : SortSearch.Monotone (revisionAtLeast (revs ++ [⟨id, k⟩]) id) := by
    intro i hi
    rw [hf] at hi ⊢
    simp only [decide_eq_true_eq] at hi ⊢
    omega
  have hidx : SortSearch.search (revs.length + 1) (revisionAtLeast (revs ++ [⟨id, k⟩]) id) = revs.length := by
    refine SortSearch.search_eq_of hmono (by simp) (by simp [hf]) fun i hi => ?_
    simp [hf, Nat.not_le.2 hi]
  simp [revertToSnapshot, hrevs, hidx]

/-- The reverts of `journal.revert`, the counts given back included, only append to the journal. -/
theorem undoAll_revertStep_journal {L : List (JournalEntry Addr Hash)} {s s' : IntraBlockState Addr Hash}
    (h : UndoLog.undoAll (fun entry s => (entry.revert env s).map fun s => s.undirty entry) L s = some s') :
    ∃ G, s'.journal = s.journal ++ G :=
  UndoLog.undoAll_rel (fun s s' : IntraBlockState Addr Hash => ∃ G, s'.journal = s.journal ++ G)
    (fun s => ⟨[], by simp⟩) (fun _ _ _ ⟨G₁, h₁⟩ ⟨G₂, h₂⟩ => ⟨G₁ ++ G₂, by rw [h₂, h₁, List.append_assoc]⟩)
    (fun _ _ _ h => JournalEntry.revertStep_journal env h) h

/-- `journal.revert` leaves the journal cut back to the snapshot, whatever the reverts appended. -/
theorem journal_revertJournal {s s' : IntraBlockState Addr Hash} {snapshot : ℕ}
    (h : s.revertJournal env snapshot = some s') : s'.journal = s.journal.take snapshot := by
  obtain ⟨t, ht, rfl⟩ := Option.map_eq_some_iff.1 h
  dsimp only
  rcases Nat.lt_or_ge s.journal.length snapshot with hlt | hle
  · -- nothing lies past the snapshot, so nothing was reverted
    rw [List.drop_eq_nil_of_le (Nat.le_of_lt hlt), UndoLog.undoAll_nil, Option.some.injEq] at ht
    rw [ht]
  · obtain ⟨G, hG⟩ := undoAll_revertStep_journal env ht
    rw [hG]
    exact List.take_append_of_le_length hle

/-- `RevertToSnapshot` that returns: the revision searched for is valid, and the journal is reverted to it. -/
theorem revertToSnapshot_eq_some {s s' : IntraBlockState Addr Hash} {revid : ℕ}
    (h : s.revertToSnapshot env revid = some s') :
    ∃ idx r t, s.validRevisions[idx]? = some r ∧ r.id = revid ∧ s.revertJournal env r.journalIndex = some t ∧
      s' = { t with validRevisions := s.validRevisions.take idx } := by
  unfold revertToSnapshot at h
  dsimp only at h
  split at h
  · cases h
  · rename_i r hr
    split_ifs at h with hid
    obtain ⟨t, ht, rfl⟩ := Option.map_eq_some_iff.1 h
    exact ⟨_, r, t, hr, not_not.1 hid, ht, rfl⟩

/-- `RevertToSnapshot` of a revision taken by `Snapshot`, after any calls, restores the refund counter, the
logs, the access list, the journal and the valid revisions of the snapshot, whenever it returns. -/
theorem revertToSnapshot_restores_journalView (s : IntraBlockState Addr Hash)
    (hrevs : ∀ r ∈ s.validRevisions, r.id < s.nextRevisionID) (hwf : s.accessList.WF)
    (calls : List (Call Addr Hash)) {s₂ s₃ : IntraBlockState Addr Hash}
    (hrun : s.snapshot.2.run env calls = some s₂) (hrev : s₂.revertToSnapshot env s.snapshot.1 = some s₃) :
    s₃.refund = s.refund ∧ s₃.logs = s.logs ∧ s₃.logSize = s.logSize ∧ s₃.accessList = s.accessList ∧
      s₃.journal = s.journal ∧ s₃.validRevisions = s.validRevisions := by
  -- the snapshot starts a run with nothing after the journal `s.journal`
  have hinit : Undoable s.journal s.journalView (s.validRevisions ++ [⟨s.nextRevisionID, s.journal.length⟩])
      s.snapshot.2 :=
    ⟨⟨[], by simp [snapshot], UndoLog.restores_nil _⟩, hwf, rfl⟩
  obtain ⟨⟨F, hF, hrestores⟩, -, hrevs₂⟩ := hinit.run env hrun
  change s₂.revertToSnapshot env s.nextRevisionID = some s₃ at hrev
  rw [revertToSnapshot_of_last env hrevs₂ hrevs] at hrev
  obtain ⟨t, ht, rfl⟩ := Option.map_eq_some_iff.1 hrev
  obtain ⟨u, hu, rfl⟩ := Option.map_eq_some_iff.1 ht
  rw [hF, List.drop_left] at hu
  -- the revert is seen in the view as the undo that restores it
  have hview : u.journalView = s.journalView := by
    have := UndoLog.undoAll_view journalView (fun e s s' h => JournalEntry.undoView_revertStep env h) hu
    rw [hrestores] at this
    exact (Option.some.inj this).symm
  -- and it only appends to the journal it starts from
  obtain ⟨G, hG⟩ := undoAll_revertStep_journal env hu
  have hv := congrArg JournalView.refund hview
  have hl := congrArg JournalView.logs hview
  have hn := congrArg JournalView.logSize hview
  have ha := congrArg JournalView.accessList hview
  simp only [journalView] at hv hl hn ha
  refine ⟨hv, hl, hn, ha, ?_, rfl⟩
  simp [hG, hF]

/-- A database with an account `1` holding `10`, and a contract `2` whose code `[96, 0]` has the hash `7`. -/
def exampleReader : StateReader ℕ ℕ where
  readAccountData a := if a = 1 then some ⟨true, 0, 10, 0, 0⟩ else if a = 2 then some ⟨true, 0, 0, 7, 0⟩ else none
  readAccountStorage _ _ _ := none
  readAccountCode a _ h := if a = 2 ∧ h = 7 then some [96, 0] else none
  readAccountCodeSize _ _ _ := 0
  readAccountIncarnation _ := 0

/-- Hashes are numbers; the zero hash is `0` and `ripemd` is the address `3`. -/
def exampleEnv : StateEnv ℕ ℕ :=
  ⟨fun code => code.length + 1, 0, 3⟩

/-- Calls on the refund counter, the logs, the access list and the account of `exampleReader`. -/
def exampleCalls : List (Call ℕ ℕ) :=
  [.addRefund 7, .addLog ⟨2, [], [], 0, 0, 0, 0⟩, .addSlotToAccessList 2 4, .addAddressToAccessList 5,
    .setBalance 1 3, .getBalance 1, .subRefund 2]

def exampleRun : IntraBlockState ℕ ℕ :=
  ((new exampleEnv exampleReader).snapshot.2.run exampleEnv exampleCalls).getD (new exampleEnv exampleReader)

def exampleReverted : IntraBlockState ℕ ℕ :=
  (exampleRun.revertToSnapshot exampleEnv 0).getD exampleRun

theorem revertToSnapshot_restores_journalView_exampleCalls :
    (∀ r ∈ (new exampleEnv exampleReader).validRevisions, r.id < (new exampleEnv exampleReader).nextRevisionID) ∧
      (new exampleEnv exampleReader).accessList.WF ∧
      (new exampleEnv exampleReader).snapshot.2.run exampleEnv exampleCalls = some exampleRun ∧
      exampleRun.revertToSnapshot exampleEnv (new exampleEnv exampleReader).snapshot.1 = some exampleReverted ∧
      (exampleReverted.refund = (new exampleEnv exampleReader).refund ∧
        exampleReverted.logs = (new exampleEnv exampleReader).logs ∧
        exampleReverted.logSize = (new exampleEnv exampleReader).logSize ∧
        exampleReverted.accessList = (new exampleEnv exampleReader).accessList ∧
        exampleReverted.journal = (new exampleEnv exampleReader).journal ∧
        exampleReverted.validRevisions = (new exampleEnv exampleReader).validRevisions) :=
  ⟨by simp [new], AccessList.wf_newAccessList, rfl, rfl,
    revertToSnapshot_restores_journalView exampleEnv (new exampleEnv exampleReader) (by simp [new])
      AccessList.wf_newAccessList exampleCalls rfl rfl⟩

/-- A snapshot of `s`, then an increase of the balance of `addr` by `amount`, then a read of it. -/
def lazyIncreaseTrace (s : IntraBlockState Addr Hash) (addr : Addr) (amount : BitVec 256) :
    IntraBlockState Addr Hash :=
  ((s.snapshot.2.addBalance env addr amount).getBalance env addr).2

/-- For every database with an account at `addr`: after a snapshot, an increase of the account before it
is read, and a read of it, `RevertToSnapshot` of the snapshot leaves the account with the increase, where
`GetBalance` right after the snapshot reads the balance without it. -/
theorem revertToSnapshot_keeps_read_increase (reader : StateReader Addr Hash) {addr : Addr}
    {account : StateAccount Hash} {amount : BitVec 256} (hread : reader.readAccountData addr = some account)
    (hinit : account.initialised = true) (hamount : amount ≠ 0) :
    ((new env reader).snapshot.2.getBalance env addr).1 = account.balance ∧
      ∃ s, (lazyIncreaseTrace env (new env reader) addr amount).revertToSnapshot env 0 = some s ∧
        (s.getBalance env addr).1 = account.balance + amount ∧ account.balance + amount ≠ account.balance := by
  -- the object a read loads from the database
  have hbal : (StateObject.newObject env addr account account).data.balance = account.balance := by
    simp only [StateObject.newObject, hinit, Bool.not_true, Bool.false_eq_true, ↓reduceIte]
    split_ifs <;> rfl
  refine ⟨?_, ?_⟩
  · rw [getBalance_of_getStateObject env (getStateObject_of_read env rfl rfl hread)]
    exact hbal
  -- the increase of the account not yet read waits in `balanceInc`
  obtain ⟨s₂, hs₂, hlive₂, hnil₂, hreader₂, hbi₂, hjournal₂, hrevs₂⟩ : ∃ s₂,
      (new env reader).snapshot.2.addBalance env addr amount = s₂ ∧ s₂.stateObjects addr = none ∧
      s₂.nilAccounts addr = false ∧ s₂.stateReader = reader ∧ s₂.balanceInc addr = some ⟨amount, false, 1⟩ ∧
      s₂.journal = [.balanceIncrease addr amount] ∧ s₂.validRevisions = [⟨0, 0⟩] := by
    refine ⟨_, addBalance_of_unread env rfl hamount, rfl, rfl, rfl, ?_, rfl, rfl⟩
    simp [new, snapshot]
  -- the read loads the account, unjournaled, and journals the transfer of the increase into it
  have hload := getStateObject_of_read env hlive₂ hnil₂ (hreader₂ ▸ hread)
  obtain ⟨s₃, hs₃, ⟨o, hobj₃, hdel₃, hbal₃⟩, hbi₃, hjournal₃, hrevs₃⟩ : ∃ s₃, (s₂.getBalance env addr).2 = s₃ ∧
      (∃ o, s₃.stateObjects addr = some o ∧ o.deleted = false ∧ o.data.balance = account.balance + amount) ∧
      s₃.balanceInc addr = some ⟨amount, true, 1⟩ ∧
      s₃.journal = [.balanceIncrease addr amount, .balanceIncreaseTransfer addr] ∧
      s₃.validRevisions = [] ++ [⟨0, 0⟩] := by
    refine ⟨_, by rw [getBalance_of_getStateObject env hload],
      ⟨s₂.withIncrease addr (StateObject.newObject env addr account account), ?_, ?_, ?_⟩, ?_, ?_, ?_⟩ <;>
      simp [setStateObject_of_pending hbi₂ rfl, withIncrease_of_pending hbi₂ rfl, append, hjournal₂, hrevs₂, hbal]
  -- the revert of the transfer marks the increase as not transferred
  obtain ⟨t, ht, hobjt, hbit⟩ : ∃ t, (JournalEntry.balanceIncreaseTransfer addr).revert env s₃ = some t ∧
      t.stateObjects = s₃.stateObjects ∧ t.balanceInc addr = some ⟨amount, false, 1⟩ :=
    ⟨_, rfl, rfl, by simp [hbi₃]⟩
  -- and the revert of the increase takes it out of `balanceInc`, but not out of the loaded object
  obtain ⟨u, hu, hobju⟩ : ∃ u, (JournalEntry.balanceIncrease addr amount).revert env t = some u ∧
      u.stateObjects = t.stateObjects :=
    ⟨{ t with balanceInc := Function.update t.balanceInc addr none }, by simp [JournalEntry.revert, hbit], rfl⟩
  unfold lazyIncreaseTrace
  rw [hs₂, hs₃, revertToSnapshot_of_last env hrevs₃ (by simp)]
  -- the transfer gave no count; the increase gives its count back
  have hcount : t.undirty (.balanceIncreaseTransfer addr) = t := undirty_of_dirtied rfl
  simp only [revertJournal, hjournal₃, List.drop_zero, UndoLog.undoAll_cons, UndoLog.undoAll_nil, Option.bind_some,
    ht, hcount, hu, Option.map_some]
  refine ⟨_, rfl, ?_, ?_⟩
  · have hlive : ({ { u.undirty (.balanceIncrease addr amount) with
          journal := (u.undirty (.balanceIncrease addr amount)).journal.take 0 } with validRevisions := [] } :
        IntraBlockState Addr Hash).stateObjects addr = some o := by
      simp [hobju, hobjt, hobj₃]
    rw [getBalance_of_getStateObject env (getStateObject_of_live env hlive), hdel₃, hbal₃]
    rfl
  · intro h
    apply hamount
    simpa using h

theorem revertToSnapshot_keeps_read_increase_account_one :
    exampleReader.readAccountData 1 = some ⟨true, 0, 10, 0, 0⟩ ∧
      (⟨true, 0, 10, 0, 0⟩ : StateAccount ℕ).initialised = true ∧ (5 : BitVec 256) ≠ 0 ∧
      ((new exampleEnv exampleReader).snapshot.2.getBalance exampleEnv 1).1 = 10 ∧
      ∃ s, (lazyIncreaseTrace exampleEnv (new exampleEnv exampleReader) 1 5).revertToSnapshot exampleEnv 0 = some s ∧
        (s.getBalance exampleEnv 1).1 = 10 + 5 ∧ (10 : BitVec 256) + 5 ≠ 10 :=
  ⟨rfl, rfl, by decide,
    revertToSnapshot_keeps_read_increase exampleEnv exampleReader
      (show exampleReader.readAccountData 1 = some ⟨true, 0, 10, 0, 0⟩ from rfl) rfl
      (show (5 : BitVec 256) ≠ 0 by decide)⟩

end IntraBlockState

end AmazeChain.State
