import AmazeChain.State.Dirties
import Mathlib.Data.List.Nodup

/-!
# Reverting to a snapshot

`Snapshot` (`modules/state/intra_block_state.go`) records the length of the journal under a fresh id, and
`RevertToSnapshot` of an id cuts the journal back to that length and drops its revision and every later one.
Along every run the valid revisions have increasing ids below `nextRevisionID` and lengths that increase and
stay within the journal (`RevisionsWF`).  So while the revision of a snapshot is valid, the journal still
starts with the journal of the snapshot, and once it is dropped its id never comes back (`Tracks`).

Reverting to the snapshot then gives back its journal, and with it the dirty count of every account but
`ripemd`, whose explicit count, its calls of `journal.dirty` since the journal was last cleared, no revert
takes back (`journalDirties_match_journal`): an account whose changes were all reverted is not marked by
`FinalizeTx`, `SoftFinalise` or `MakeWriteSet`.
-/

namespace AmazeChain.State

namespace IntraBlockState

variable {Addr Hash : Type}

/-- The valid revisions as `Snapshot` makes them: their ids increase and are below the next id, and their
journal lengths increase and are within the journal. -/
structure RevisionsWF (s : IntraBlockState Addr Hash) : Prop where
  ids : s.validRevisions.Pairwise fun r r' => r.id < r'.id
  fresh : ∀ r ∈ s.validRevisions, r.id < s.nextRevisionID
  journalIndices : s.validRevisions.Pairwise fun r r' => r.journalIndex ≤ r'.journalIndex
  bounded : ∀ r ∈ s.validRevisions, r.journalIndex ≤ s.journal.length

/-- After `Snapshot` returned `id` at the journal `J₀` and the explicit counts `x₀`: either its revision is
still valid, the journal still starts with `J₀` and no explicit count has fallen, or no valid revision has the
id, which is spent. -/
def Tracks (id : ℕ) (J₀ : List (JournalEntry Addr Hash)) (x₀ : Addr → ℕ) (s : IntraBlockState Addr Hash)
    (x : Addr → ℕ) : Prop :=
  (⟨id, J₀.length⟩ ∈ s.validRevisions ∧ J₀ <+: s.journal ∧ ∀ a, x₀ a ≤ x a) ∨
    ((∀ r ∈ s.validRevisions, r.id ≠ id) ∧ id < s.nextRevisionID)

namespace RevisionsWF

variable {s s' : IntraBlockState Addr Hash}

/-- A valid revision is the only one with its id. -/
theorem eq_of_id (h : RevisionsWF s) {r r' : Revision} (hr : r ∈ s.validRevisions) (hr' : r' ∈ s.validRevisions)
    (hid : r.id = r'.id) : r = r' :=
  List.inj_on_of_nodup_map (List.pairwise_map.2 (h.ids.imp Nat.ne_of_lt)) hr hr' hid

/-- The revisions before the one at `idx` mark no longer journals than it does. -/
theorem le_of_mem_take (h : RevisionsWF s) {idx : ℕ} {r r' : Revision} (hr : s.validRevisions[idx]? = some r)
    (hr' : r' ∈ s.validRevisions.take idx) : r'.journalIndex ≤ r.journalIndex := by
  have h0 : (s.validRevisions.drop idx)[0]? = some r := by
    rw [List.getElem?_drop, Nat.add_zero]
    exact hr
  have hsplit := h.journalIndices
  rw [← List.take_append_drop idx s.validRevisions] at hsplit
  exact (List.pairwise_append.1 hsplit).2.2 r' hr' r (List.mem_of_getElem? h0)

/-- A state with no valid revision. -/
theorem of_validRevisions_nil (h : s.validRevisions = []) : RevisionsWF s :=
  ⟨by rw [h]; exact .nil, by simp [h], by rw [h]; exact .nil, by simp [h]⟩

/-- `Snapshot` adds a revision with the next id at the end of the journal. -/
theorem snapshot (h : RevisionsWF s) : RevisionsWF s.snapshot.2 := by
  refine ⟨List.pairwise_append.2 ⟨h.ids, List.pairwise_singleton _ _, fun r hr r' hr' => ?_⟩, fun r hr => ?_,
    List.pairwise_append.2 ⟨h.journalIndices, List.pairwise_singleton _ _, fun r hr r' hr' => ?_⟩, fun r hr => ?_⟩
  · rw [List.mem_singleton.1 hr']
    exact h.fresh r hr
  · rcases List.mem_append.1 hr with hr | hr
    · exact Nat.lt_succ_of_lt (h.fresh r hr)
    · rw [List.mem_singleton.1 hr]
      exact Nat.lt_succ_self _
  · rw [List.mem_singleton.1 hr']
    exact h.bounded r hr
  · rcases List.mem_append.1 hr with hr | hr
    · exact h.bounded r hr
    · rw [List.mem_singleton.1 hr]
      exact Nat.le_refl _

variable [DecidableEq Addr] [DecidableEq Hash] (env : StateEnv Addr Hash)

omit [DecidableEq Hash] in
/-- A call keeps the revisions and only lengthens the journal. -/
theorem of_grows {x x' : Addr → ℕ} (h : RevisionsWF s) (g : Grows env s s' x x') : RevisionsWF s' := by
  obtain ⟨F, hF, -⟩ := g.journal
  refine ⟨?_, ?_, ?_, fun r hr => ?_⟩
  · rw [g.validRevisions]
    exact h.ids
  · rw [g.validRevisions, g.nextRevisionID]
    exact h.fresh
  · rw [g.validRevisions]
    exact h.journalIndices
  · rw [g.validRevisions] at hr
    rw [hF, List.length_append]
    exact Nat.le_add_right_of_le (h.bounded r hr)

/-- `RevertToSnapshot` keeps the revisions before the one it reverts to, and the journal within them. -/
theorem revertToSnapshot {x : Addr → ℕ} {revid : ℕ} (h : RevisionsWF s) (hx : DirtiesInv env s x)
    (hrev : s.revertToSnapshot env revid = some s') : RevisionsWF s' := by
  obtain ⟨idx, r, hr, -, hj, hv, hn⟩ := hx.revertToSnapshot_revisions env hrev
  have hk : r.journalIndex ≤ s.journal.length := h.bounded r (List.mem_of_getElem? hr)
  refine ⟨by rw [hv]; exact h.ids.sublist (List.take_sublist _ _), fun r' hr' => ?_,
    by rw [hv]; exact h.journalIndices.sublist (List.take_sublist _ _), fun r' hr' => ?_⟩
  · rw [hv] at hr'
    rw [hn]
    exact h.fresh r' (List.mem_of_mem_take hr')
  · -- a revision kept marks no more than the length the journal is cut to
    rw [hv] at hr'
    have hle := h.le_of_mem_take hr hr'
    rw [hj, List.length_take]
    exact Nat.le_min.2 ⟨hle, Nat.le_trans hle hk⟩

end RevisionsWF

theorem revisionsWF_new (env : StateEnv Addr Hash) (reader : StateReader Addr Hash) :
    RevisionsWF (new env reader) :=
  .of_validRevisions_nil rfl

namespace Tracks

variable {id : ℕ} {J₀ : List (JournalEntry Addr Hash)} {x₀ : Addr → ℕ} {s s' : IntraBlockState Addr Hash}
  {x x' : Addr → ℕ}

/-- The revision of a snapshot just taken. -/
theorem snapshot_self (s : IntraBlockState Addr Hash) (x : Addr → ℕ) :
    Tracks s.snapshot.1 s.journal x s.snapshot.2 x :=
  .inl ⟨List.mem_append_right _ (List.mem_singleton_self _), List.prefix_refl _, fun _ => Nat.le_refl _⟩

/-- A later `Snapshot` adds a revision after it, with an id not yet spent. -/
theorem snapshot (ht : Tracks id J₀ x₀ s x) : Tracks id J₀ x₀ s.snapshot.2 x := by
  rcases ht with ⟨hmem, hpre, hle⟩ | ⟨hgone, hlt⟩
  · exact .inl ⟨List.mem_append_left _ hmem, hpre, hle⟩
  · refine .inr ⟨fun r hr => ?_, Nat.lt_succ_of_lt hlt⟩
    rcases List.mem_append.1 hr with hr | hr
    · exact hgone r hr
    · rw [List.mem_singleton.1 hr]
      exact Nat.ne_of_gt hlt

/-- The end of a transaction drops every revision. -/
theorem of_cleared (ht : Tracks id J₀ x₀ s x) (h : RevisionsWF s) (hr : s'.validRevisions = [])
    (hn : s'.nextRevisionID = s.nextRevisionID) : Tracks id J₀ x₀ s' x' := by
  refine .inr ⟨by simp [hr], ?_⟩
  rw [hn]
  rcases ht with ⟨hmem, -, -⟩ | ⟨-, hlt⟩
  · exact h.fresh _ hmem
  · exact hlt

variable [DecidableEq Addr] [DecidableEq Hash] (env : StateEnv Addr Hash)

omit [DecidableEq Hash] in
/-- A call appends to the journal and keeps the revisions. -/
theorem of_grows (ht : Tracks id J₀ x₀ s x) (g : Grows env s s' x x') : Tracks id J₀ x₀ s' x' := by
  obtain ⟨F, hF, -⟩ := g.journal
  rcases ht with ⟨hmem, hpre, hle⟩ | ⟨hgone, hlt⟩
  · refine .inl ⟨by rw [g.validRevisions]; exact hmem, ?_, fun a => Nat.le_trans (hle a) (g.explicit a)⟩
    rw [hF]
    exact hpre.trans (List.prefix_append _ _)
  · rw [Tracks, g.validRevisions, g.nextRevisionID]
    exact .inr ⟨hgone, hlt⟩

/-- `RevertToSnapshot` of any id either keeps the revision, before the one reverted to and so within the
journal left, or drops it for good. -/
theorem revertToSnapshot {revid : ℕ} (ht : Tracks id J₀ x₀ s x) (h : RevisionsWF s) (hx : DirtiesInv env s x)
    (hrev : s.revertToSnapshot env revid = some s') : Tracks id J₀ x₀ s' x := by
  obtain ⟨idx, r, hr, -, hj, hv, hn⟩ := hx.revertToSnapshot_revisions env hrev
  rw [Tracks, hv, hj, hn]
  rcases ht with ⟨hmem, hpre, hle⟩ | ⟨hgone, hlt⟩
  · by_cases hkept : ⟨id, J₀.length⟩ ∈ s.validRevisions.take idx
    · -- the revision lies before the one reverted to, whose journal length is no smaller
      exact .inl ⟨hkept, List.prefix_take_iff.2 ⟨hpre, h.le_of_mem_take hr hkept⟩, hle⟩
    · -- the revision is dropped, and no other revision has its id
      refine .inr ⟨fun r' hr' hid => hkept ?_, h.fresh _ hmem⟩
      rwa [← h.eq_of_id (List.mem_of_mem_take hr') hmem hid]
  · exact .inr ⟨fun r' hr' => hgone r' (List.mem_of_mem_take hr'), hlt⟩

/-- Reverting to the id of a tracked snapshot gives back its journal. -/
theorem revert_journal (ht : Tracks id J₀ x₀ s x) (h : RevisionsWF s) (hx : DirtiesInv env s x)
    (hrev : s.revertToSnapshot env id = some s') : s'.journal = J₀ ∧ ∀ a, x₀ a ≤ x a := by
  obtain ⟨idx, r, hr, hid, hj, -, -⟩ := hx.revertToSnapshot_revisions env hrev
  have hrmem := List.mem_of_getElem? hr
  rcases ht with ⟨hmem, hpre, hle⟩ | ⟨hgone, -⟩
  · -- the revision found is the snapshot's, the only one with its id
    have hreq : r = ⟨id, J₀.length⟩ := h.eq_of_id hrmem hmem hid
    refine ⟨?_, hle⟩
    rw [hj, hreq]
    exact (List.prefix_iff_eq_take.1 hpre).symm
  · exact absurd hid (hgone r hrmem)

end Tracks

variable [DecidableEq Addr] [DecidableEq Hash] (env : StateEnv Addr Hash)

/-- `FinalizeTx` ends with no revision and keeps the revision counter. -/
theorem revisions_finalizeTx {ω : Type} (w : StateWriter Addr Hash ω) (rules : Rules) (systemAddress : Addr)
    {s : IntraBlockState Addr Hash} {x : Addr → ℕ} (hx : DirtiesInv env s x) (o : ω) (order : List Addr)
    (keys : Addr → List Hash) :
    (s.finalizeTx env w rules systemAddress o order keys).1.validRevisions = [] ∧
      (s.finalizeTx env w rules systemAddress o order keys).1.nextRevisionID = s.nextRevisionID := by
  obtain ⟨x', g⟩ := dirtyStep_transferIncreases env s order x hx
  -- the loop over the dirty accounts keeps the counter
  have hloop := ListFold.foldl_proj (fun t : IntraBlockState Addr Hash × ω => t.1.nextRevisionID)
    (fun t addr (_ : addr ∈ order) => finalizeDirty_nextRevisionID env w rules systemAddress keys t addr)
    (s.transferIncreases env order, o)
  unfold finalizeTx
  dsimp only
  rcases hf : order.foldl (finalizeDirty env w rules systemAddress keys) (s.transferIncreases env order, o) with
    ⟨s', o'⟩
  rw [hf] at hloop
  exact ⟨rfl, hloop.trans g.nextRevisionID⟩

/-- What a step keeps: the invariant of the counts, the revisions, and what every snapshot before it tracks. -/
theorem runOp_keeps {s s' : IntraBlockState Addr Hash} {x : Addr → ℕ} {o : Op Addr Hash} (hx : DirtiesInv env s x)
    (h : RevisionsWF s) (hrun : s.runOp env o = some s') :
    ∃ x', DirtiesInv env s' x' ∧ RevisionsWF s' ∧ ∀ id J₀ x₀, Tracks id J₀ x₀ s x → Tracks id J₀ x₀ s' x' := by
  cases o with
  | call c =>
    obtain ⟨x', g⟩ := dirtyStep_call env hrun x hx
    exact ⟨x', g.inv, h.of_grows env g, fun _ _ _ ht => ht.of_grows env g⟩
  | snapshot =>
    cases hrun
    exact ⟨x, hx.of_frame env rfl rfl rfl, h.snapshot, fun _ _ _ ht => ht.snapshot⟩
  | revertToSnapshot revid =>
    exact ⟨x, hx.revertToSnapshot env hrun, h.revertToSnapshot env hx hrun,
      fun _ _ _ ht => ht.revertToSnapshot env h hx hrun⟩
  | softFinalise =>
    cases hrun
    exact ⟨_, dirtiesInv_softFinalise env hx, .of_validRevisions_nil rfl, fun _ _ _ ht => ht.of_cleared h rfl rfl⟩
  | finalizeTx rules systemAddress order keys =>
    cases hrun
    obtain ⟨hr, hn⟩ := revisions_finalizeTx env noopWriter rules systemAddress hx () order keys
    exact ⟨_, dirtiesInv_finalizeTx env noopWriter rules systemAddress hx () order keys, .of_validRevisions_nil hr,
      fun _ _ _ ht => ht.of_cleared h hr hn⟩

/-- Every run keeps them, step by step. -/
theorem runOps_keeps : ∀ {ops : List (Op Addr Hash)} {s s' : IntraBlockState Addr Hash} {x : Addr → ℕ},
    DirtiesInv env s x → RevisionsWF s → s.runOps env ops = some s' →
    ∃ x', DirtiesInv env s' x' ∧ RevisionsWF s' ∧ ∀ id J₀ x₀, Tracks id J₀ x₀ s x → Tracks id J₀ x₀ s' x'
  | [], s, s', x, hx, h, hrun => by
    cases hrun
    exact ⟨x, hx, h, fun _ _ _ ht => ht⟩
  | o :: ops, s, s', x, hx, h, hrun => by
    rw [IntraBlockState.runOps, Option.bind_eq_some_iff] at hrun
    obtain ⟨t, ht, hrest⟩ := hrun
    obtain ⟨x₁, hx₁, h₁, htr₁⟩ := runOp_keeps env hx h ht
    obtain ⟨x₂, hx₂, h₂, htr₂⟩ := runOps_keeps hx₁ h₁ hrest
    exact ⟨x₂, hx₂, h₂, fun id J₀ x₀ htr => htr₂ id J₀ x₀ (htr₁ id J₀ x₀ htr)⟩

/-- The explicit counts of the state a run from a new state reaches: `ripemd`'s calls of `journal.dirty` since
the last clear, and none for any other address. -/
theorem explicit_of_run (reader : StateReader Addr Hash) {ops : List (Op Addr Hash)} {s : IntraBlockState Addr Hash}
    (hrun : (new env reader).runOps env ops = some s) {x : Addr → ℕ} (hx : DirtiesInv env s x) (a : Addr) :
    x a = if a = env.ripemd then runDirtyCalls env (new env reader) 0 ops else 0 := by
  obtain ⟨y, hy, hcalls⟩ := (dirtiesInv_new env reader).runOps_dirtyCalls env hrun
  rw [hx.explicit_unique env hy]
  split_ifs with ha
  · rw [ha, hcalls]
  · exact Decidable.byContradiction fun hne => ha (hy.ripemd a hne)

/-- The dirty counts along every run of a block from a new state: the count of every address is the count of
the journal's entries for it, with, for `ripemd`, its calls of `journal.dirty` since the journal was last
cleared; none is held at zero.  Reverting to a snapshot, after any run with further snapshots and reverts,
gives back the journal of the snapshot and the count of every address but `ripemd`.  The count of `ripemd` is
then the snapshot's entries for it and every call of `journal.dirty` since the last clear, also those whose
entries the revert cut: `ripemd` is counted after the revert exactly when it was counted at the snapshot or
was touched since.  So after the revert `SoftFinalise`, `MakeWriteSet` and `FinalizeTx` mark no account but
`ripemd` that the snapshot's journal did not count. -/
theorem journalDirties_match_journal (reader : StateReader Addr Hash) :
    (∀ (ops : List (Op Addr Hash)) (s : IntraBlockState Addr Hash), (new env reader).runOps env ops = some s →
      ∀ a, (s.journalDirties a).getD 0 = ((dirtyCount s.journal a +
          if a = env.ripemd then runDirtyCalls env (new env reader) 0 ops else 0 : ℕ) : Int) ∧
        s.journalDirties a ≠ some 0) ∧
    (∀ (ops₁ ops₂ : List (Op Addr Hash)) (s₁ s₂ s₃ : IntraBlockState Addr Hash),
      (new env reader).runOps env ops₁ = some s₁ → s₁.snapshot.2.runOps env ops₂ = some s₂ →
      s₂.revertToSnapshot env s₁.snapshot.1 = some s₃ →
      s₃.journal = s₁.journal ∧ (∀ a, a ≠ env.ripemd → s₃.journalDirties a = s₁.journalDirties a) ∧
      (s₃.journalDirties env.ripemd).getD 0 = ((dirtyCount s₁.journal env.ripemd +
          runDirtyCalls env s₁.snapshot.2 (runDirtyCalls env (new env reader) 0 ops₁) ops₂ : ℕ) : Int) ∧
      ((s₃.journalDirties env.ripemd).isSome ↔ (s₁.journalDirties env.ripemd).isSome ∨
          runDirtyCalls env (new env reader) 0 ops₁ <
            runDirtyCalls env s₁.snapshot.2 (runDirtyCalls env (new env reader) 0 ops₁) ops₂) ∧
      ∀ a, a ≠ env.ripemd → dirtyCount s₁.journal a = 0 →
        s₃.journalDirties a = none ∧ s₃.softFinalise.stateObjectsDirty a = s₃.stateObjectsDirty a ∧
        ∀ {ω : Type} (w : StateWriter Addr Hash ω) (rules : Rules) (systemAddress : Addr) (o : ω)
          (order : List Addr) (keys : Addr → List Hash),
          (s₃.makeWriteSet env w rules systemAddress o order keys).1.stateObjectsDirty a = s₃.stateObjectsDirty a ∧
          ((∀ bi, s₃.balanceInc a = some bi → bi.transferred = true) →
            (s₃.finalizeTx env w rules systemAddress o order keys).1.stateObjectsDirty a =
              s₃.stateObjectsDirty a)) := by
  refine ⟨fun ops s hrun a => ?_, fun ops₁ ops₂ s₁ s₂ s₃ h₁ h₂ h₃ => ?_⟩
  · obtain ⟨x, hx⟩ := (dirtiesInv_new env reader).runOps env hrun
    rw [← explicit_of_run env reader hrun hx a]
    exact hx.journalDirties_eq env a
  · obtain ⟨x₁, hx₁, hwf₁, -⟩ := runOps_keeps env (dirtiesInv_new env reader) (revisionsWF_new env reader) h₁
    have hc₁ := explicit_of_run env reader h₁ hx₁ env.ripemd
    rw [if_pos rfl] at hc₁
    -- the snapshot's revision tracks its journal through the run after it
    have hsnap : DirtiesInv env s₁.snapshot.2 x₁ := hx₁.of_frame env rfl rfl rfl
    obtain ⟨x₂, hx₂, hwf₂, htr⟩ := runOps_keeps env hsnap hwf₁.snapshot h₂
    obtain ⟨y₂, hy₂, hc₂⟩ := hsnap.runOps_dirtyCalls env h₂
    rw [← hx₂.explicit_unique env hy₂, hc₁] at hc₂
    obtain ⟨hj, hle⟩ := (htr _ _ _ (Tracks.snapshot_self s₁ x₁)).revert_journal env hwf₂ hx₂ h₃
    have hx₃ := hx₂.revertToSnapshot env h₃
    -- after the revert the counts follow the snapshot's journal, with the explicit counts of the later run
    have hcount : ∀ a, s₃.journalDirties a = asDirties (dirtyCount s₁.journal a + x₂ a) := fun a => by
      rw [hx₃.tracked.counted a, hj]
    have hother : ∀ a, a ≠ env.ripemd → x₁ a = 0 ∧ x₂ a = 0 := fun a ha =>
      ⟨Decidable.byContradiction fun hne => ha (hx₁.ripemd a hne),
        Decidable.byContradiction fun hne => ha (hx₂.ripemd a hne)⟩
    refine ⟨hj, fun a ha => ?_, ?_, ?_, fun a ha hzero => ?_⟩
    · rw [hcount a, hx₁.tracked.counted a, (hother a ha).1, (hother a ha).2]
    · rw [hcount, asDirties_getD, hc₂]
    · rw [hcount, isSome_asDirties, hx₁.tracked.counted, isSome_asDirties, ← hc₂, ← hc₁]
      have := hle env.ripemd
      omega
    · -- the journal the loops read counts `a` no more than the snapshot's did
      have hd : s₃.dirties a = false := by
        rw [Bool.eq_false_iff, Ne, dirties_iff, hj, hzero]
        exact fun h => h rfl
      refine ⟨by rw [hcount a, hzero, (hother a ha).2]; rfl, softFinalise_stateObjectsDirty_of_not_dirty hd,
        fun w rules systemAddress o order keys => ⟨makeWriteSet_stateObjectsDirty_of_not_dirty env w rules
          systemAddress keys hd o order, fun hinc => finalizeTx_stateObjectsDirty_of_not_dirty env w rules
            systemAddress keys hd hinc o order⟩⟩

/-- A touch of `ripemd` after a snapshot: `AddBalance` of nothing makes the empty account and touches it. -/
def ripemdTouch : List (Op ℕ ℕ) := [.call (.addBalance 3 0)]

def ripemdTouched : IntraBlockState ℕ ℕ :=
  ((new exampleEnv exampleReader).snapshot.2.runOps exampleEnv ripemdTouch).getD (new exampleEnv exampleReader)

def ripemdReverted : IntraBlockState ℕ ℕ :=
  (ripemdTouched.revertToSnapshot exampleEnv (new exampleEnv exampleReader).snapshot.1).getD ripemdTouched

/-- The touch journals two entries for `ripemd` and calls `journal.dirty` once; reverting it takes the entries
back and leaves the call. -/
theorem journalDirties_match_journal_ripemdTouch :
    ((new exampleEnv exampleReader).snapshot.2.runOps exampleEnv ripemdTouch = some ripemdTouched ∧
      ripemdTouched.revertToSnapshot exampleEnv (new exampleEnv exampleReader).snapshot.1 = some ripemdReverted) ∧
    (ripemdReverted.journal = (new exampleEnv exampleReader).journal ∧
      (∀ a, a ≠ exampleEnv.ripemd →
        ripemdReverted.journalDirties a = (new exampleEnv exampleReader).journalDirties a) ∧
      (ripemdReverted.journalDirties exampleEnv.ripemd).getD 0 =
        ((dirtyCount (new exampleEnv exampleReader).journal exampleEnv.ripemd +
          runDirtyCalls exampleEnv (new exampleEnv exampleReader).snapshot.2
            (runDirtyCalls exampleEnv (new exampleEnv exampleReader) 0 []) ripemdTouch : ℕ) : Int) ∧
      ((ripemdReverted.journalDirties exampleEnv.ripemd).isSome ↔
        ((new exampleEnv exampleReader).journalDirties exampleEnv.ripemd).isSome ∨
          runDirtyCalls exampleEnv (new exampleEnv exampleReader) 0 [] <
            runDirtyCalls exampleEnv (new exampleEnv exampleReader).snapshot.2
              (runDirtyCalls exampleEnv (new exampleEnv exampleReader) 0 []) ripemdTouch) ∧
      ∀ a, a ≠ exampleEnv.ripemd → dirtyCount (new exampleEnv exampleReader).journal a = 0 →
        ripemdReverted.journalDirties a = none ∧
          ripemdReverted.softFinalise.stateObjectsDirty a = ripemdReverted.stateObjectsDirty a ∧
          ∀ {ω : Type} (w : StateWriter ℕ ℕ ω) (rules : Rules) (systemAddress : ℕ) (o : ω) (order : List ℕ)
            (keys : ℕ → List ℕ),
            (ripemdReverted.makeWriteSet exampleEnv w rules systemAddress o order keys).1.stateObjectsDirty a =
                ripemdReverted.stateObjectsDirty a ∧
              ((∀ bi, ripemdReverted.balanceInc a = some bi → bi.transferred = true) →
                (ripemdReverted.finalizeTx exampleEnv w rules systemAddress o order keys).1.stateObjectsDirty a =
                  ripemdReverted.stateObjectsDirty a)) ∧
    ripemdTouched.journalDirties 3 = some 3 ∧ ripemdReverted.journalDirties 3 = some 1 :=
  ⟨⟨rfl, rfl⟩, (journalDirties_match_journal exampleEnv exampleReader).2 [] ripemdTouch _ _ _ rfl rfl rfl,
    by decide, by decide⟩

end IntraBlockState

end AmazeChain.State
