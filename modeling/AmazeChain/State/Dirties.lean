import AmazeChain.State.Revert
import AmazeChain.State.Finalise

/-!
# The dirty counts of the journal

`journal.dirties` (`modules/state/journal.go`) counts, for each account, the entries of the journal whose
`dirtied` names it, and `journal.dirty` gives `ripemd` one more count with no entry, which no revert takes
back.  `FinalizeTx`, `SoftFinalise` and `MakeWriteSet` read the dirty accounts off it.

The counts follow the journal only if every revert finds the object it writes.  The reverts of the account
entries look their account up with `getStateObject`, which for an account that is not live reads it from the
database, makes it live and may journal its creation: counted, and then cut off with the entries being
reverted, so its count would stay.  That never happens: an entry that looks an account up was journaled
while its object was live, and no creation of the account is journaled after it, whose revert would drop the
object first (`RevertsLive`).  `DirtiesInv s explicit` says that, and that the count of every address is the
count of its entries plus `explicit`, which only `ripemd` has.  Every call keeps the invariant (`DirtyStep`),
`journal.dirty` is the one step that raises `explicit`, a revert keeps it with the entries left
(`Tracked.undoAll`), and the end of a transaction starts it afresh.
-/

namespace AmazeChain.State

variable {Addr Hash : Type}

/-- The account whose object the revert of an entry looks up with `getStateObject`. -/
def JournalEntry.lookedUp : JournalEntry Addr Hash → Option Addr
  | .selfdestructChange account _ _ | .balanceChange account _ | .nonceChange account _
  | .storageChange account _ _ | .fakeStorageChange account _ _ | .codeChange account _ _ => some account
  | _ => none

/-- What the reverts ask of an entry journaled while the objects are `objects`: a creation of an account
that is not live, a reset to an object of the account's own address, and for an entry that looks its account
up, a live object. -/
def JournalEntry.Appendable (objects : Addr → Option (StateObject Addr Hash)) : JournalEntry Addr Hash → Prop
  | .createObjectChange account => objects account = none
  | .resetObjectChange account prev => prev.address = account
  | .selfdestructChange account _ _ | .balanceChange account _ | .nonceChange account _
  | .storageChange account _ _ | .fakeStorageChange account _ _ | .codeChange account _ _ =>
    (objects account).isSome
  | _ => True

theorem JournalEntry.Appendable.live {objects : Addr → Option (StateObject Addr Hash)} {e : JournalEntry Addr Hash}
    (h : e.Appendable objects) {a : Addr} (ha : e.lookedUp = some a) : (objects a).isSome := by
  cases e with
  | selfdestructChange account _ _ | balanceChange account _ | nonceChange account _
  | storageChange account _ _ | fakeStorageChange account _ _ | codeChange account _ _ =>
    cases ha
    exact h
  | _ => cases ha

/-- An entry that looks up a live account can be journaled. -/
theorem JournalEntry.Appendable.of_lookedUp {objects : Addr → Option (StateObject Addr Hash)}
    {e : JournalEntry Addr Hash} {a : Addr} (ha : e.lookedUp = some a) (hlive : (objects a).isSome) :
    e.Appendable objects := by
  cases e with
  | selfdestructChange account _ _ | balanceChange account _ | nonceChange account _
  | storageChange account _ _ | fakeStorageChange account _ _ | codeChange account _ _ =>
    cases ha
    exact hlive
  | _ => cases ha

/-- Every live object is the object of its own address. -/
def Addressed (objects : Addr → Option (StateObject Addr Hash)) : Prop :=
  ∀ a obj, objects a = some obj → obj.address = a

theorem Addressed.update [DecidableEq Addr] {objects : Addr → Option (StateObject Addr Hash)} (h : Addressed objects) {addr : Addr}
    {obj : StateObject Addr Hash} (hobj : obj.address = addr) : Addressed (Function.update objects addr (some obj)) := by
  intro a o ho
  by_cases ha : a = addr
  · subst ha
    rw [Function.update_self, Option.some.injEq] at ho
    rw [← ho, hobj]
  · rw [Function.update_of_ne ha] at ho
    exact h a o ho

theorem Addressed.erase [DecidableEq Addr] {objects : Addr → Option (StateObject Addr Hash)} (h : Addressed objects) (addr : Addr) :
    Addressed (Function.update objects addr none) := by
  intro a o ho
  by_cases ha : a = addr
  · subst ha
    simp at ho
  · rw [Function.update_of_ne ha] at ho
    exact h a o ho

/-- The reverts of the entries of `journal` find the objects they look up live: each such object is live,
no creation of its account is journaled after an entry that looks it up, and a reset puts back an object of
the account's own address. -/
structure RevertsLive (journal : List (JournalEntry Addr Hash)) (objects : Addr → Option (StateObject Addr Hash)) :
    Prop where
  live : ∀ e ∈ journal, ∀ a, e.lookedUp = some a → (objects a).isSome
  notRecreated : journal.Pairwise fun e e' => ∀ a, e.lookedUp = some a → e' ≠ .createObjectChange a
  resets : ∀ a prev, JournalEntry.resetObjectChange a prev ∈ journal → prev.address = a

namespace RevertsLive

variable {journal P : List (JournalEntry Addr Hash)} {objects objects' : Addr → Option (StateObject Addr Hash)}

theorem nil (objects : Addr → Option (StateObject Addr Hash)) : RevertsLive [] objects :=
  ⟨by simp, List.Pairwise.nil, by simp⟩

/-- Objects that stay live keep the reverts finding them. -/
theorem mono (h : RevertsLive journal objects) (hmono : ∀ a, (objects a).isSome → (objects' a).isSome) :
    RevertsLive journal objects' :=
  ⟨fun e he a ha => hmono a (h.live e he a ha), h.notRecreated, h.resets⟩

theorem append (h : RevertsLive journal objects) {e : JournalEntry Addr Hash} (he : e.Appendable objects) :
    RevertsLive (journal ++ [e]) objects := by
  refine ⟨?_, ?_, ?_⟩
  · intro e' he' a ha
    rcases List.mem_append.1 he' with he' | he'
    · exact h.live e' he' a ha
    · rw [List.mem_singleton.1 he'] at ha
      exact he.live ha
  · -- a creation journaled now is of an account no entry before it looks up, since those are live
    refine List.pairwise_append.2 ⟨h.notRecreated, List.pairwise_singleton _ _, ?_⟩
    intro e' he' e'' he'' a ha heq
    rw [List.mem_singleton.1 he''] at heq
    subst heq
    have hnone : objects a = none := he
    simpa [hnone] using h.live e' he' a ha
  · intro a prev hmem
    rcases List.mem_append.1 hmem with hmem | hmem
    · exact h.resets a prev hmem
    · rw [← List.mem_singleton.1 hmem] at he
      exact he

/-- A write makes an object live, or keeps it so. -/
theorem update [DecidableEq Addr] (h : RevertsLive journal objects) (a : Addr) (obj : StateObject Addr Hash) :
    RevertsLive journal (Function.update objects a (some obj)) :=
  h.mono fun b hb => by
    by_cases hba : b = a
    · simp [hba]
    · rwa [Function.update_of_ne hba]

/-- The entries left once the last one is reverted. -/
theorem dropLast {e : JournalEntry Addr Hash} (h : RevertsLive (P ++ [e]) objects) : RevertsLive P objects :=
  ⟨fun e' he' a ha => h.live e' (List.mem_append_left _ he') a ha,
    (List.pairwise_append.1 h.notRecreated).1, fun a prev hmem => h.resets a prev (List.mem_append_left _ hmem)⟩

/-- The revert of the last entry, a creation, drops an object no entry left looks up. -/
theorem dropLast_create [DecidableEq Addr] {a : Addr} (h : RevertsLive (P ++ [.createObjectChange a]) objects) :
    RevertsLive P (Function.update objects a none) := by
  obtain ⟨hP, -, hlast⟩ := List.pairwise_append.1 h.notRecreated
  refine ⟨fun e he b hb => ?_, hP, fun b prev hmem => h.resets b prev (List.mem_append_left _ hmem)⟩
  -- the creation comes after every entry left, so none of them looks its account up
  have hba : b ≠ a := by
    rintro rfl
    exact hlast e he _ (List.mem_singleton_self _) b hb rfl
  rw [Function.update_of_ne hba]
  exact h.live e (List.mem_append_left _ he) b hb

end RevertsLive

/-! ### The counts -/

variable [DecidableEq Addr]

/-- The entries of `journal` whose `dirtied` is `addr`. -/
def dirtyCount (journal : List (JournalEntry Addr Hash)) (addr : Addr) : ℕ :=
  journal.countP fun e => decide (e.dirtied = some addr)

/-- Whether an entry is the touch of `addr`: for `ripemd`, `stateObject.touch` calls `journal.dirty` right after
it appends this entry, and nowhere else is `journal.dirty` called. -/
def JournalEntry.isTouchOf (addr : Addr) : JournalEntry Addr Hash → Bool
  | .touchChange account => decide (account = addr)
  | _ => false

/-- The explicit counts appended entries `F` give: one for each touch of `ripemd`, a call of `journal.dirty`. -/
def touchCount (ripemd : Addr) (F : List (JournalEntry Addr Hash)) (addr : Addr) : ℕ :=
  if addr = ripemd then F.countP (JournalEntry.isTouchOf ripemd) else 0

@[simp] theorem touchCount_nil (ripemd addr : Addr) : touchCount ripemd ([] : List (JournalEntry Addr Hash)) addr = 0 := by
  simp [touchCount]

theorem touchCount_append (ripemd : Addr) (F G : List (JournalEntry Addr Hash)) (addr : Addr) :
    touchCount ripemd (F ++ G) addr = touchCount ripemd F addr + touchCount ripemd G addr := by
  unfold touchCount
  split_ifs <;> simp [List.countP_append]

/-- An entry other than a touch of `ripemd` gives no explicit count. -/
theorem touchCount_singleton_of_not_touch {ripemd : Addr} {e : JournalEntry Addr Hash}
    (h : e.isTouchOf ripemd = false) (addr : Addr) : touchCount ripemd [e] addr = 0 := by
  simp [touchCount, h]

/-- A count as `journal.dirties` holds it: a count that falls to zero is deleted. -/
def asDirties (n : ℕ) : Option Int :=
  if n = 0 then none else some n

theorem dirtyCount_append_singleton (journal : List (JournalEntry Addr Hash)) (e : JournalEntry Addr Hash)
    (addr : Addr) :
    dirtyCount (journal ++ [e]) addr = dirtyCount journal addr + if e.dirtied = some addr then 1 else 0 := by
  simp [dirtyCount, List.countP_append]

omit [DecidableEq Addr] in
@[simp] theorem asDirties_zero : asDirties 0 = none := rfl

omit [DecidableEq Addr] in
theorem asDirties_succ (n : ℕ) : asDirties (n + 1) = some ((n : Int) + 1) := by
  simp [asDirties]

omit [DecidableEq Addr] in
theorem asDirties_getD (n : ℕ) : (asDirties n).getD 0 = n := by
  unfold asDirties
  split_ifs with h <;> simp [h]

omit [DecidableEq Addr] in
theorem asDirties_ne_some_zero (n : ℕ) : asDirties n ≠ some 0 := by
  unfold asDirties
  split_ifs with h
  · simp
  · simpa using h

omit [DecidableEq Addr] in
theorem asDirties_eq_int (n : ℕ) : asDirties n = if (n : Int) = 0 then none else some (n : Int) := by
  unfold asDirties
  by_cases h : n = 0 <;> simp [h]

omit [DecidableEq Addr] in
theorem isSome_asDirties (n : ℕ) : (asDirties n).isSome ↔ n ≠ 0 := by
  unfold asDirties
  split_ifs with h <;> simp [h]

/-- `dirties` holds for every address the count of its entries in `journal`, and `explicit` more. -/
def Counted (journal : List (JournalEntry Addr Hash)) (dirties : Addr → Option Int) (explicit : Addr → ℕ) : Prop :=
  ∀ a, dirties a = asDirties (dirtyCount journal a + explicit a)

theorem counted_nil : Counted ([] : List (JournalEntry Addr Hash)) (fun _ => none) (fun _ => 0) := fun a => by
  simp [dirtyCount]

/-- `j.dirties[addr]++` of counts that follow `journal` and `explicit`, for a change of them that raises the
count of `addr` by one. -/
theorem Counted.incDirties {journal journal' : List (JournalEntry Addr Hash)} {dirties : Addr → Option Int}
    {explicit explicit' : Addr → ℕ} (h : Counted journal dirties explicit) {addr : Addr}
    (hcount : ∀ a, dirtyCount journal' a + explicit' a =
      dirtyCount journal a + explicit a + if a = addr then 1 else 0) :
    Counted journal' (IntraBlockState.incDirties dirties addr) explicit' := by
  intro a
  rw [hcount a]
  unfold IntraBlockState.incDirties
  by_cases ha : a = addr
  · subst ha
    rw [Function.update_self, h a, asDirties_getD, if_pos rfl, asDirties_succ]
  · rw [Function.update_of_ne ha, h a, if_neg ha, Nat.add_zero]

namespace IntraBlockState

theorem counted_append {journal : List (JournalEntry Addr Hash)} {explicit : Addr → ℕ} {s : IntraBlockState Addr Hash}
    (h : Counted journal s.journalDirties explicit) (e : JournalEntry Addr Hash) :
    Counted (journal ++ [e]) (s.append e).journalDirties explicit := by
  unfold append
  cases hd : e.dirtied with
  | none =>
    intro a
    rw [h a, dirtyCount_append_singleton, hd]
    simp
  | some addr =>
    refine h.incDirties fun a => ?_
    rw [dirtyCount_append_singleton, hd]
    by_cases ha : a = addr
    · simp [ha]
      omega
    · simp [ha, Ne.symm ha]

theorem counted_dirty {journal : List (JournalEntry Addr Hash)} {explicit : Addr → ℕ} {s : IntraBlockState Addr Hash}
    (h : Counted journal s.journalDirties explicit) (addr : Addr) :
    Counted journal (s.dirty addr).journalDirties (Function.update explicit addr (explicit addr + 1)) := by
  refine h.incDirties fun a => ?_
  by_cases ha : a = addr
  · subst ha
    simp
    omega
  · simp [ha]

/-- The count `journal.revert` gives back for the last entry. -/
theorem counted_undirty {P : List (JournalEntry Addr Hash)} {e : JournalEntry Addr Hash} {explicit : Addr → ℕ}
    {t : IntraBlockState Addr Hash} (h : Counted (P ++ [e]) t.journalDirties explicit) :
    Counted P (t.undirty e).journalDirties explicit := by
  intro a
  have ha := h a
  rw [dirtyCount_append_singleton] at ha
  unfold undirty
  cases hd : e.dirtied with
  | none => simpa [hd] using ha
  | some addr =>
    dsimp only
    by_cases hb : a = addr
    · subst hb
      -- the entry's count is one of those of its address, so taking it back leaves the others
      have hn : ((dirtyCount P a + 1 + explicit a : ℕ) : Int) - 1 = ((dirtyCount P a + explicit a : ℕ) : Int) := by
        push_cast
        omega
      rw [hd, if_pos rfl] at ha
      rw [Function.update_self, ha, asDirties_getD, hn, asDirties_eq_int]
    · rw [Function.update_of_ne hb]
      simpa [hd, Ne.symm hb] using ha

/-! ### The invariant -/

/-- The dirty counts of `s` follow the entries `journal`, with `explicit` the counts no entry gives. -/
structure Tracked (journal : List (JournalEntry Addr Hash)) (s : IntraBlockState Addr Hash) (explicit : Addr → ℕ) :
    Prop where
  addressed : Addressed s.stateObjects
  revertsLive : RevertsLive journal s.stateObjects
  counted : Counted journal s.journalDirties explicit

variable (env : StateEnv Addr Hash)

/-- The invariant of the dirty counts: they follow the journal, and only `ripemd` has counts that no entry
gives. -/
structure DirtiesInv (s : IntraBlockState Addr Hash) (explicit : Addr → ℕ) : Prop where
  tracked : Tracked s.journal s explicit
  ripemd : ∀ a, explicit a ≠ 0 → a = env.ripemd

theorem dirtiesInv_new (reader : StateReader Addr Hash) : DirtiesInv env (new env reader) fun _ => 0 :=
  ⟨⟨fun _ _ h => by simp at h, RevertsLive.nil _, counted_nil⟩, fun _ h => absurd rfl h⟩

/-- After clearing the journal the counts start afresh. -/
theorem dirtiesInv_clearJournalAndRefund {s : IntraBlockState Addr Hash} (h : Addressed s.stateObjects) :
    DirtiesInv env s.clearJournalAndRefund fun _ => 0 :=
  ⟨⟨h, RevertsLive.nil _, counted_nil⟩, fun _ h => absurd rfl h⟩

/-- What a step from `s` to `s'` keeps, for the explicit counts `x` grown to `x'`: the invariant, the journal
it appends to with the explicit counts its touches of `ripemd` add, and the revisions. -/
structure Grows (s s' : IntraBlockState Addr Hash) (x x' : Addr → ℕ) : Prop where
  inv : DirtiesInv env s' x'
  journal : ∃ F, s'.journal = s.journal ++ F ∧ ∀ a, x' a = x a + touchCount env.ripemd F a
  validRevisions : s'.validRevisions = s.validRevisions
  nextRevisionID : s'.nextRevisionID = s.nextRevisionID

variable {env} in
/-- A step takes no explicit count back. -/
theorem Grows.explicit {s s' : IntraBlockState Addr Hash} {x x' : Addr → ℕ} (g : Grows env s s' x x') (a : Addr) :
    x a ≤ x' a := by
  obtain ⟨F, -, hx⟩ := g.journal
  rw [hx a]
  exact Nat.le_add_right _ _

/-- A step that keeps the invariant and adds an explicit count for each touch of `ripemd` it journals. -/
def DirtyStep (s s' : IntraBlockState Addr Hash) : Prop :=
  ∀ x, DirtiesInv env s x → ∃ x', Grows env s s' x x'

namespace DirtyStep

variable {env}

theorem refl (s : IntraBlockState Addr Hash) : DirtyStep env s s :=
  fun x hx => ⟨x, hx, ⟨[], by simp, fun _ => by simp⟩, rfl, rfl⟩

theorem trans {s₁ s₂ s₃ : IntraBlockState Addr Hash} (h₁ : DirtyStep env s₁ s₂) (h₂ : DirtyStep env s₂ s₃) :
    DirtyStep env s₁ s₃ := by
  intro x hx
  obtain ⟨x₂, g₁⟩ := h₁ x hx
  obtain ⟨x₃, g₂⟩ := h₂ x₂ g₁.inv
  obtain ⟨F₁, hF₁, hx₂⟩ := g₁.journal
  obtain ⟨F₂, hF₂, hx₃⟩ := g₂.journal
  refine ⟨x₃, g₂.inv, ⟨F₁ ++ F₂, by rw [hF₂, hF₁, List.append_assoc], fun a => ?_⟩,
    g₂.validRevisions.trans g₁.validRevisions, g₂.nextRevisionID.trans g₁.nextRevisionID⟩
  rw [hx₃ a, hx₂ a, touchCount_append, Nat.add_assoc]

/-- A step may rest on the invariant of the state it starts from. -/
theorem of_inv {s s' : IntraBlockState Addr Hash} (h : ∀ x, DirtiesInv env s x → DirtyStep env s s') :
    DirtyStep env s s' :=
  fun x hx => h x hx x hx

end DirtyStep

/-! ### The steps the calls are made of -/

/-- The invariant reads only the objects, the journal and its counts. -/
theorem DirtiesInv.of_frame {s s' : IntraBlockState Addr Hash} {x : Addr → ℕ} (hx : DirtiesInv env s x)
    (hj : s'.journal = s.journal) (ho : s'.stateObjects = s.stateObjects) (hd : s'.journalDirties = s.journalDirties) :
    DirtiesInv env s' x := by
  obtain ⟨⟨haddr, hlive, hcount⟩, hrip⟩ := hx
  refine ⟨⟨?_, ?_, ?_⟩, hrip⟩
  · rwa [ho]
  · rwa [hj, ho]
  · rwa [hj, hd]

/-- A change of neither the objects, the journal nor its counts. -/
theorem dirtyStep_of_frame {s s' : IntraBlockState Addr Hash} (hj : s'.journal = s.journal)
    (ho : s'.stateObjects = s.stateObjects) (hd : s'.journalDirties = s.journalDirties)
    (hr : s'.validRevisions = s.validRevisions) (hn : s'.nextRevisionID = s.nextRevisionID) : DirtyStep env s s' :=
  fun x hx => ⟨x, hx.of_frame env hj ho hd, ⟨[], by simp [hj], fun _ => by simp⟩, hr, hn⟩

/-- A write of an object of its own address. -/
theorem dirtyStep_of_write {s s' : IntraBlockState Addr Hash} {addr : Addr} {obj : StateObject Addr Hash}
    (hj : s'.journal = s.journal) (ho : s'.stateObjects = Function.update s.stateObjects addr (some obj))
    (haddr : obj.address = addr) (hd : s'.journalDirties = s.journalDirties)
    (hr : s'.validRevisions = s.validRevisions) (hn : s'.nextRevisionID = s.nextRevisionID) : DirtyStep env s s' := by
  intro x hx
  obtain ⟨⟨hobjs, hlive, hcount⟩, hrip⟩ := hx
  refine ⟨x, ⟨⟨?_, ?_, ?_⟩, hrip⟩, ⟨[], by simp [hj], fun _ => by simp⟩, hr, hn⟩
  · rw [ho]
    exact hobjs.update haddr
  · rw [hj, ho]
    exact hlive.update addr obj
  · rwa [hj, hd]

theorem dirtyStep_writeObject (s : IntraBlockState Addr Hash) {addr : Addr} {obj : StateObject Addr Hash}
    (haddr : obj.address = addr) : DirtyStep env s (s.writeObject addr obj) :=
  dirtyStep_of_write env rfl rfl haddr rfl rfl rfl

/-- `journal.append` of an entry the reverts can undo, other than a touch of `ripemd`. -/
theorem dirtyStep_append (s : IntraBlockState Addr Hash) {e : JournalEntry Addr Hash}
    (he : e.Appendable s.stateObjects) (ht : e.isTouchOf env.ripemd = false) : DirtyStep env s (s.append e) := by
  intro x hx
  obtain ⟨⟨hobjs, hlive, hcount⟩, hrip⟩ := hx
  exact ⟨x, ⟨⟨hobjs, hlive.append he, counted_append hcount e⟩, hrip⟩,
    ⟨[e], rfl, fun a => by rw [touchCount_singleton_of_not_touch ht, Nat.add_zero]⟩, rfl, rfl⟩

/-- The touch of `ripemd` and the `journal.dirty` after it: the entry, and one explicit count more. -/
theorem dirtyStep_touchRipemd (s : IntraBlockState Addr Hash) :
    DirtyStep env s ((s.append (.touchChange env.ripemd)).dirty env.ripemd) := by
  intro x hx
  obtain ⟨⟨hobjs, hlive, hcount⟩, hrip⟩ := hx
  refine ⟨Function.update x env.ripemd (x env.ripemd + 1),
    ⟨⟨hobjs, hlive.append trivial, counted_dirty (counted_append hcount _) env.ripemd⟩, fun a ha => ?_⟩,
    ⟨[.touchChange env.ripemd], rfl, fun a => ?_⟩, rfl, rfl⟩
  · by_cases har : a = env.ripemd
    · exact har
    · rw [Function.update_of_ne har] at ha
      exact hrip a ha
  · by_cases har : a = env.ripemd
    · subst har
      simp [touchCount, JournalEntry.isTouchOf]
    · rw [Function.update_of_ne har]
      simp [touchCount, har]

omit [DecidableEq Addr] in
/-- An entry that names the address of a live object looks up a live object. -/
theorem isSome_of_live {s : IntraBlockState Addr Hash} {addr a : Addr} {so : StateObject Addr Hash}
    (hso : s.stateObjects addr = some so) (ha : a = addr) : (s.stateObjects a).isSome := by
  rw [ha, hso]
  rfl

omit [DecidableEq Addr] in
@[simp] theorem withIncrease_address (s : IntraBlockState Addr Hash) (addr : Addr) (object : StateObject Addr Hash) :
    (s.withIncrease addr object).address = object.address := by
  unfold withIncrease
  split
  · split_ifs <;> rfl
  · rfl

theorem setStateObject_stateObjects (s : IntraBlockState Addr Hash) (addr : Addr) (object : StateObject Addr Hash) :
    (s.setStateObject addr object).stateObjects = Function.update s.stateObjects addr (some (s.withIncrease addr object)) := by
  unfold setStateObject withIncrease
  rcases hbi : s.balanceInc addr with _ | bi
  · rfl
  · cases ht : bi.transferred <;> simp [ht]

theorem setStateObject_journalDirties (s : IntraBlockState Addr Hash) (addr : Addr) (object : StateObject Addr Hash) :
    (s.setStateObject addr object).journalDirties = s.journalDirties := by
  unfold setStateObject
  split
  · split_ifs <;> rfl
  · rfl

theorem setStateObject_nextRevisionID (s : IntraBlockState Addr Hash) (addr : Addr) (object : StateObject Addr Hash) :
    (s.setStateObject addr object).nextRevisionID = s.nextRevisionID := by
  unfold setStateObject
  split
  · split_ifs <;> rfl
  · rfl

theorem dirtyStep_setStateObject (s : IntraBlockState Addr Hash) {addr : Addr} {object : StateObject Addr Hash}
    (haddr : object.address = addr) : DirtyStep env s (s.setStateObject addr object) := by
  unfold setStateObject
  split
  · split
    · -- the transfer of the increase is journaled, then the object stored with it
      exact (dirtyStep_append env s (by trivial) rfl).trans (dirtyStep_of_write env rfl rfl (by simpa using haddr) rfl rfl rfl)
    · exact dirtyStep_writeObject env s haddr
  · exact dirtyStep_writeObject env s haddr

variable [DecidableEq Hash]

theorem createObject_address (s : IntraBlockState Addr Hash) (addr : Addr) (previous : Option (StateObject Addr Hash)) :
    (s.createObject env addr previous).1.address = addr := by
  unfold createObject
  cases previous <;> simp

/-- `createObject` leaves the object it returns live. -/
theorem createObject_stateObjects (s : IntraBlockState Addr Hash) (addr : Addr)
    (previous : Option (StateObject Addr Hash)) :
    (s.createObject env addr previous).2.stateObjects addr = some (s.createObject env addr previous).1 := by
  unfold createObject
  cases previous <;> simp [setStateObject_stateObjects]

/-- `createObject` of the object live at `addr`, if any: a creation of an account that is not live, or a reset
to the object it replaces. -/
theorem dirtyStep_createObject (s : IntraBlockState Addr Hash) {addr : Addr} {previous : Option (StateObject Addr Hash)}
    (h : s.stateObjects addr = previous) : DirtyStep env s (s.createObject env addr previous).2 := by
  refine .of_inv fun x hx => ?_
  unfold createObject
  cases previous with
  | none => exact (dirtyStep_append env s (by exact h) rfl).trans (dirtyStep_setStateObject env _ (by simp))
  | some previous =>
    have hprev : previous.address = addr := hx.tracked.addressed addr previous h
    exact (dirtyStep_append env s (by exact hprev) rfl).trans (dirtyStep_setStateObject env _ (by simp))

theorem createIfIncreased_stateObjects (s : IntraBlockState Addr Hash) {addr : Addr} (h : s.stateObjects addr = none) :
    (s.createIfIncreased env addr).2.stateObjects addr = (s.createIfIncreased env addr).1 := by
  unfold createIfIncreased
  split
  · split
    · exact createObject_stateObjects env s addr none
    · exact h
  · exact h

theorem dirtyStep_createIfIncreased (s : IntraBlockState Addr Hash) {addr : Addr} (h : s.stateObjects addr = none) :
    DirtyStep env s (s.createIfIncreased env addr).2 := by
  unfold createIfIncreased
  split
  · split
    · exact dirtyStep_createObject env s h
    · exact .refl s
  · exact .refl s

/-- `getStateObject` leaves live the object it returns, and no object if it returns none. -/
theorem getStateObject_stateObjects (s : IntraBlockState Addr Hash) (addr : Addr) :
    (s.getStateObject env addr).2.stateObjects addr = (s.getStateObject env addr).1 := by
  unfold getStateObject
  split
  · rename_i obj hobj
    exact hobj
  · rename_i hnone
    split
    · exact createIfIncreased_stateObjects env s hnone
    · split
      · exact createIfIncreased_stateObjects env _ hnone
      · simp [setStateObject_stateObjects]

theorem dirtyStep_getStateObject (s : IntraBlockState Addr Hash) (addr : Addr) :
    DirtyStep env s (s.getStateObject env addr).2 := by
  unfold getStateObject
  split
  · exact .refl s
  · rename_i hnone
    split
    · exact dirtyStep_createIfIncreased env s hnone
    · split
      · -- the address is remembered as having no account
        have hnil : DirtyStep env s { s with nilAccounts := Function.update s.nilAccounts addr true } :=
          dirtyStep_of_frame env rfl rfl rfl rfl rfl
        exact hnil.trans (dirtyStep_createIfIncreased env _ hnone)
      · exact dirtyStep_setStateObject env s (by simp)

theorem getOrNewStateObject_stateObjects (s : IntraBlockState Addr Hash) (addr : Addr) :
    (s.getOrNewStateObject env addr).2.stateObjects addr = some (s.getOrNewStateObject env addr).1 := by
  unfold getOrNewStateObject
  have hget := getStateObject_stateObjects env s addr
  split
  · rename_i obj s' hobj
    rw [hobj] at hget
    split
    · exact createObject_stateObjects env s' addr _
    · exact hget
  · rename_i s' hobj
    exact createObject_stateObjects env s' addr none

theorem dirtyStep_getOrNewStateObject (s : IntraBlockState Addr Hash) (addr : Addr) :
    DirtyStep env s (s.getOrNewStateObject env addr).2 := by
  unfold getOrNewStateObject
  have hget := getStateObject_stateObjects env s addr
  have hstep := dirtyStep_getStateObject env s addr
  split
  · rename_i obj s' hobj
    rw [hobj] at hget hstep
    split
    · exact hstep.trans (dirtyStep_createObject env s' hget)
    · exact hstep
  · rename_i s' hobj
    rw [hobj] at hget hstep
    exact hstep.trans (dirtyStep_createObject env s' hget)

/-- What is reached by a step from the state after a lookup is reached from the state before. -/
theorem dirtyStep_of_lookup (s : IntraBlockState Addr Hash) (addr : Addr) {t : IntraBlockState Addr Hash}
    (h : ∀ so s', s.getStateObject env addr = (so, s') → s'.stateObjects addr = so → DirtyStep env s' t) :
    DirtyStep env s t := by
  rcases hget : s.getStateObject env addr with ⟨so, s'⟩
  have hstep := dirtyStep_getStateObject env s addr
  have hlive := getStateObject_stateObjects env s addr
  rw [hget] at hstep hlive
  exact hstep.trans (h so s' hget hlive)

/-- The same for a lookup that makes a missing account. -/
theorem dirtyStep_of_getOrNew (s : IntraBlockState Addr Hash) (addr : Addr) {t : IntraBlockState Addr Hash}
    (h : ∀ so s', s.getOrNewStateObject env addr = (so, s') → s'.stateObjects addr = some so → DirtyStep env s' t) :
    DirtyStep env s t := by
  rcases hget : s.getOrNewStateObject env addr with ⟨so, s'⟩
  have hstep := dirtyStep_getOrNewStateObject env s addr
  have hlive := getOrNewStateObject_stateObjects env s addr
  rw [hget] at hstep hlive
  exact hstep.trans (h so s' hget hlive)

/-! ### The journaled methods of `stateObject`, on the object live at their address -/

section Live

variable {s : IntraBlockState Addr Hash} {addr : Addr} {so : StateObject Addr Hash}

omit [DecidableEq Hash] in
/-- A touch journals the account, and counts `ripemd` once more without an entry. -/
theorem dirtyStep_touch (s : IntraBlockState Addr Hash) (so : StateObject Addr Hash) :
    DirtyStep env s (s.touch env so) := by
  unfold touch
  split_ifs with h
  · rw [h]
    exact dirtyStep_touchRipemd env s
  · exact dirtyStep_append env s trivial (by simp [JournalEntry.isTouchOf, h])

omit [DecidableEq Hash] in
/-- A write back, at its address, of an object made from the one live there. -/
theorem dirtyStep_writeBack (hso : s.stateObjects addr = some so) {obj : StateObject Addr Hash}
    (hobj : obj.address = so.address) : DirtyStep env s (s.writeObject addr obj) :=
  .of_inv fun _ hx => dirtyStep_writeObject env s (hobj.trans (hx.tracked.addressed addr so hso))

omit [DecidableEq Hash] in
/-- The setters of `stateObject`: an entry that looks up the account of the object live at `addr`, then a write
back of an object of the same address. -/
theorem dirtyStep_appendWrite (hso : s.stateObjects addr = some so) {e : JournalEntry Addr Hash} {a : Addr}
    (he : e.lookedUp = some a) (ha : so.address = addr → a = addr) (ht : e.isTouchOf env.ripemd = false)
    {obj : StateObject Addr Hash} (hobj : obj.address = so.address) :
    DirtyStep env s ((s.append e).writeObject addr obj) := by
  refine .of_inv fun x hx => ?_
  have haddr : so.address = addr := hx.tracked.addressed addr so hso
  exact (dirtyStep_append env s (.of_lookedUp he (isSome_of_live hso (ha haddr))) ht).trans
    (dirtyStep_writeObject env _ (hobj.trans haddr))

omit [DecidableEq Hash] in
theorem dirtyStep_objectSetBalance (hso : s.stateObjects addr = some so) (amount : BitVec 256) :
    DirtyStep env s (s.objectSetBalance addr so amount) :=
  dirtyStep_appendWrite env hso rfl id rfl (StateObject.setBalance_address so amount)

theorem dirtyStep_objectAddBalance (hso : s.stateObjects addr = some so) (amount : BitVec 256) :
    DirtyStep env s (s.objectAddBalance env addr so amount) := by
  unfold objectAddBalance
  split_ifs
  · exact dirtyStep_touch env s so
  · exact .refl s
  · exact dirtyStep_objectSetBalance env hso _

omit [DecidableEq Hash] in
theorem dirtyStep_objectSubBalance (hso : s.stateObjects addr = some so) (amount : BitVec 256) :
    DirtyStep env s (s.objectSubBalance addr so amount) := by
  unfold objectSubBalance
  split_ifs
  · exact .refl s
  · exact dirtyStep_objectSetBalance env hso _

omit [DecidableEq Hash] in
theorem dirtyStep_objectSetNonce (hso : s.stateObjects addr = some so) (nonce : UInt64) :
    DirtyStep env s (s.objectSetNonce addr so nonce) :=
  dirtyStep_appendWrite env hso rfl id rfl (StateObject.setNonce_address so nonce)

theorem dirtyStep_objectSetCode (hso : s.stateObjects addr = some so) (codeHash : Hash) (code : List UInt8) :
    DirtyStep env s (s.objectSetCode env addr so codeHash code) := by
  -- the code it replaces is loaded first, into an object of the same address
  have hload := StateObject.loadCode_address env s.stateReader so
  unfold objectSetCode
  rcases hr : so.loadCode env s.stateReader with ⟨prevcode, so'⟩
  rw [hr] at hload
  exact dirtyStep_appendWrite env hso rfl hload.trans rfl (by simpa using hload)

theorem dirtyStep_objectSetState (hso : s.stateObjects addr = some so) (key : Hash) (value : BitVec 256) :
    DirtyStep env s (s.objectSetState addr so key value) := by
  unfold objectSetState
  split
  · exact dirtyStep_appendWrite env hso rfl id rfl rfl
  · -- the read of the value it replaces only fills the object's cache
    have hread := StateObject.getState_address s.stateReader so key
    rcases hr : so.getState s.stateReader key with ⟨prev, so'⟩
    rw [hr] at hread
    dsimp only
    split_ifs
    · exact dirtyStep_writeBack env hso hread
    · exact dirtyStep_appendWrite env hso rfl hread.trans rfl (by simpa using hread)

end Live

/-! ### The calls -/

theorem dirtyStep_addBalance (s : IntraBlockState Addr Hash) (addr : Addr) (amount : BitVec 256) :
    DirtyStep env s (s.addBalance env addr amount) := by
  unfold addBalance
  dsimp only
  split_ifs
  · -- the increase waits in `balanceInc`
    exact (dirtyStep_append env s (by trivial) rfl).trans (dirtyStep_of_frame env rfl rfl rfl rfl rfl)
  · refine dirtyStep_of_getOrNew env s addr fun so s' hso hlive => ?_
    rw [hso]
    exact dirtyStep_objectAddBalance env hlive amount

theorem dirtyStep_createAccount (s : IntraBlockState Addr Hash) (addr : Addr) (contractCreation : Bool) :
    DirtyStep env s (s.createAccount env addr contractCreation) := by
  refine dirtyStep_of_lookup env s addr fun previous s' hprev hlive => ?_
  unfold createAccount
  rw [hprev]
  dsimp only
  have hcreate := dirtyStep_createObject env s' hlive
  have hnew := createObject_address env s' addr previous
  rcases hc : s'.createObject env addr previous with ⟨newObj, s''⟩
  rw [hc] at hcreate hnew
  -- the new object keeps its address through the changes of its fields
  refine hcreate.trans (dirtyStep_writeObject env s'' ?_)
  cases previous <;> cases contractCreation <;> exact hnew

theorem dirtyStep_selfdestruct (s : IntraBlockState Addr Hash) (addr : Addr) :
    DirtyStep env s (s.selfdestruct env addr).2 := by
  refine dirtyStep_of_lookup env s addr fun so s' hso hlive => ?_
  unfold selfdestruct
  rw [hso]
  rcases so with _ | so
  · exact .refl s'
  · dsimp only
    split_ifs
    · exact .refl s'
    · exact dirtyStep_appendWrite env hlive rfl (fun _ => rfl) rfl rfl

omit [DecidableEq Hash] in
theorem dirtyStep_addAddressToAccessList (s : IntraBlockState Addr Hash) (addr : Addr) :
    DirtyStep env s (s.addAddressToAccessList addr) := by
  unfold addAddressToAccessList
  rcases s.accessList.addAddress addr with ⟨addrMod, al⟩
  have hal : DirtyStep env s { s with accessList := al } := dirtyStep_of_frame env rfl rfl rfl rfl rfl
  dsimp only
  split_ifs
  · exact hal.trans (dirtyStep_append env _ (by trivial) rfl)
  · exact hal

theorem dirtyStep_addSlotToAccessList {s s' : IntraBlockState Addr Hash} {addr : Addr} {slot : Hash}
    (h : s.addSlotToAccessList addr slot = some s') : DirtyStep env s s' := by
  unfold addSlotToAccessList at h
  obtain ⟨⟨⟨addrMod, slotMod⟩, al⟩, -, rfl⟩ := Option.map_eq_some_iff.1 h
  have hal : DirtyStep env s { s with accessList := al } := dirtyStep_of_frame env rfl rfl rfl rfl rfl
  -- the entries journaled follow the two answers of `AddSlot`
  cases addrMod <;> cases slotMod <;> dsimp only <;> simp only [Bool.false_eq_true, ↓reduceIte]
  · exact hal
  · exact hal.trans (dirtyStep_append env _ (by trivial) rfl)
  · exact hal.trans (dirtyStep_append env _ (by trivial) rfl)
  · exact (hal.trans (dirtyStep_append env _ (by trivial) rfl)).trans (dirtyStep_append env _ (by trivial) rfl)

/-- Every call keeps the invariant, and takes no explicit count back. -/
theorem dirtyStep_call {s s' : IntraBlockState Addr Hash} {c : Call Addr Hash} (h : s.call env c = some s') :
    DirtyStep env s s' := by
  cases c with
  | addBalance addr amount => cases h; exact dirtyStep_addBalance env s addr amount
  | subBalance addr amount =>
    cases h
    refine dirtyStep_of_getOrNew env s addr fun so s' hso hlive => ?_
    simp only [subBalance, hso]
    exact dirtyStep_objectSubBalance env hlive amount
  | setBalance addr amount =>
    cases h
    refine dirtyStep_of_getOrNew env s addr fun so s' hso hlive => ?_
    simp only [setBalance, hso]
    exact dirtyStep_objectSetBalance env hlive amount
  | setNonce addr nonce =>
    cases h
    refine dirtyStep_of_getOrNew env s addr fun so s' hso hlive => ?_
    simp only [setNonce, hso]
    exact dirtyStep_objectSetNonce env hlive nonce
  | setCode addr code =>
    cases h
    refine dirtyStep_of_getOrNew env s addr fun so s' hso hlive => ?_
    simp only [setCode, hso]
    exact dirtyStep_objectSetCode env hlive _ code
  | setState addr key value =>
    cases h
    refine dirtyStep_of_getOrNew env s addr fun so s' hso hlive => ?_
    simp only [setState, hso]
    exact dirtyStep_objectSetState env hlive key value
  | createAccount addr contractCreation => cases h; exact dirtyStep_createAccount env s addr contractCreation
  | suicide addr => cases h; exact dirtyStep_selfdestruct env s addr
  | selfdestruct addr => cases h; exact dirtyStep_selfdestruct env s addr
  -- the refund and the logs are journaled and changed beside the objects
  | addRefund _ | subRefund _ | addLog _ =>
    cases h
    exact (dirtyStep_append env s (by trivial) rfl).trans (dirtyStep_of_frame env rfl rfl rfl rfl rfl)
  | addAddressToAccessList addr => cases h; exact dirtyStep_addAddressToAccessList env s addr
  | addSlotToAccessList addr slot => exact dirtyStep_addSlotToAccessList env h
  -- a read keeps the state of its lookup, or writes back the object whose cache it filled
  | getBalance addr | getNonce addr | exist addr | empty addr =>
    cases h
    refine dirtyStep_of_lookup env s addr fun so s' hso _ => ?_
    rcases so with _ | so <;> simp only [getBalance, getNonce, exist, empty, hso] <;> exact .refl s'
  | getCode addr | getState addr _ =>
    cases h
    refine dirtyStep_of_lookup env s addr fun so s' hso hlive => ?_
    rcases so with _ | so
    · simp only [getCode, getState, hso]
      exact .refl s'
    · simp only [getCode, getState, hso]
      split_ifs
      · exact .refl s'
      · exact dirtyStep_writeBack env hlive (by simp)

/-! ### Reverting the journal -/

/-- The revert of an entry that writes the object live at `account`. -/
theorem revertObject_of_live {s : IntraBlockState Addr Hash} {account : Addr} {obj : StateObject Addr Hash}
    (hobj : s.stateObjects account = some obj) (f : StateObject Addr Hash → StateObject Addr Hash) :
    s.revertObject env account f = some (s.writeObject account (f obj)) := by
  simp [revertObject, getStateObject_of_live env hobj]

namespace Tracked

variable {P : List (JournalEntry Addr Hash)} {e : JournalEntry Addr Hash} {t t' : IntraBlockState Addr Hash}
  {x : Addr → ℕ}

omit [DecidableEq Hash] in
/-- The revert of the last entry that changes neither the objects nor the counts, which then give the entry's
count back; the revision counter is left alone. -/
theorem undo_of_frame (h : Tracked (P ++ [e]) t x) (ho : t'.stateObjects = t.stateObjects)
    (hd : t'.journalDirties = t.journalDirties) (hn : t'.nextRevisionID = t.nextRevisionID) :
    Tracked P (t'.undirty e) x ∧ (t'.undirty e).nextRevisionID = t.nextRevisionID :=
  ⟨⟨by rw [undirty_stateObjects, ho]; exact h.addressed, by rw [undirty_stateObjects, ho]; exact h.revertsLive.dropLast,
    counted_undirty (by rw [hd]; exact h.counted)⟩, by rw [undirty_nextRevisionID, hn]⟩

omit [DecidableEq Hash] in
/-- The revert of the last entry that writes an object of its own address. -/
theorem undo_of_write {a : Addr} {obj : StateObject Addr Hash} (h : Tracked (P ++ [e]) t x)
    (ho : t'.stateObjects = Function.update t.stateObjects a (some obj)) (haddr : obj.address = a)
    (hd : t'.journalDirties = t.journalDirties) (hn : t'.nextRevisionID = t.nextRevisionID) :
    Tracked P (t'.undirty e) x ∧ (t'.undirty e).nextRevisionID = t.nextRevisionID :=
  ⟨⟨by rw [undirty_stateObjects, ho]; exact h.addressed.update haddr,
    by rw [undirty_stateObjects, ho]; exact h.revertsLive.dropLast.update a obj,
    counted_undirty (by rw [hd]; exact h.counted)⟩, by rw [undirty_nextRevisionID, hn]⟩

omit [DecidableEq Hash] in
/-- The object the revert of the last entry looks up is live, at its own address. -/
theorem live_of_lookedUp (h : Tracked (P ++ [e]) t x) {a : Addr} (ha : e.lookedUp = some a) :
    ∃ obj, t.stateObjects a = some obj ∧ obj.address = a := by
  obtain ⟨obj, hobj⟩ :=
    Option.isSome_iff_exists.1 (h.revertsLive.live e (List.mem_append_right _ (List.mem_singleton_self e)) a ha)
  exact ⟨obj, hobj, h.addressed a obj hobj⟩

/-- The revert of the last entry through `revertObject`, by a change of the object that keeps its address. -/
theorem undo_revertObject (h : Tracked (P ++ [e]) t x) {a : Addr} (ha : e.lookedUp = some a)
    {f : StateObject Addr Hash → StateObject Addr Hash} (hrev : t.revertObject env a f = some t')
    (hf : ∀ obj, (f obj).address = obj.address) :
    Tracked P (t'.undirty e) x ∧ (t'.undirty e).nextRevisionID = t.nextRevisionID := by
  obtain ⟨obj, hobj, haddr⟩ := h.live_of_lookedUp ha
  rw [revertObject_of_live env hobj, Option.some.injEq] at hrev
  subst hrev
  exact h.undo_of_write rfl ((hf obj).trans haddr) rfl rfl

/-- The revert of the last entry, with its count given back, leaves the counts following the entries before
it: an entry that looks its account up finds it live, so no revert journals a creation.  No revert touches
the revision counter. -/
theorem revertStep (h : Tracked (P ++ [e]) t x)
    (hstep : (e.revert env t).map (fun t => t.undirty e) = some t') :
    Tracked P t' x ∧ t'.nextRevisionID = t.nextRevisionID := by
  obtain ⟨t₁, hrev, rfl⟩ := Option.map_eq_some_iff.1 hstep
  cases e with
  | createObjectChange account =>
    cases hrev
    exact ⟨⟨h.addressed.erase account, h.revertsLive.dropLast_create, counted_undirty h.counted⟩, rfl⟩
  | resetObjectChange account prev =>
    cases hrev
    exact h.undo_of_write (setStateObject_stateObjects t account prev)
      (by simpa using h.revertsLive.resets account prev (by simp)) (setStateObject_journalDirties t account prev)
      (setStateObject_nextRevisionID t account prev)
  | selfdestructChange account prev prevbalance =>
    obtain ⟨obj, hobj, haddr⟩ := h.live_of_lookedUp rfl
    simp only [JournalEntry.revert, getStateObject_of_live env hobj, Option.some.injEq] at hrev
    subst hrev
    exact h.undo_of_write rfl (by simpa using haddr) rfl rfl
  | balanceChange _ _ | nonceChange _ _ | storageChange _ _ _ | codeChange _ _ _ =>
    exact h.undo_revertObject env rfl hrev fun _ => rfl
  | fakeStorageChange account key prevalue =>
    obtain ⟨obj, hobj, haddr⟩ := h.live_of_lookedUp rfl
    simp only [JournalEntry.revert, getStateObject_of_live env hobj] at hrev
    rcases hfake : obj.fakeStorage with _ | fake
    · simp [hfake] at hrev
    · simp only [hfake, Option.some.injEq] at hrev
      subst hrev
      exact h.undo_of_write rfl haddr rfl rfl
  | balanceIncrease account increase =>
    simp only [JournalEntry.revert] at hrev
    split at hrev <;> (cases hrev; exact h.undo_of_frame rfl rfl rfl)
  | balanceIncreaseTransfer _ | refundChange _ | touchChange _ | accessListAddAccountChange _ =>
    cases hrev
    exact h.undo_of_frame rfl rfl rfl
  | addLogChange txhash =>
    simp only [JournalEntry.revert] at hrev
    split_ifs at hrev <;> (cases hrev; exact h.undo_of_frame rfl rfl rfl)
  | accessListAddSlotChange address slot =>
    obtain ⟨al, -, rfl⟩ := Option.map_eq_some_iff.1 hrev
    exact h.undo_of_frame rfl rfl rfl

/-- Reverting the entries `L` that follow `P`, the last first, leaves the counts following `P`, and the
revision counter as it was. -/
theorem undoAll {x : Addr → ℕ} : ∀ {L P : List (JournalEntry Addr Hash)} {t t' : IntraBlockState Addr Hash},
    Tracked (P ++ L) t x →
      UndoLog.undoAll (fun entry s => (entry.revert env s).map fun s => s.undirty entry) L t = some t' →
      Tracked P t' x ∧ t'.nextRevisionID = t.nextRevisionID
  | [], P, t, t', h, hu => by
    cases hu
    exact ⟨by simpa using h, rfl⟩
  | e :: L, P, t, t', h, hu => by
    rw [UndoLog.undoAll_cons, Option.bind_eq_some_iff] at hu
    obtain ⟨u, hu, hstep⟩ := hu
    -- the entries after `e` are reverted first, which leaves the counts following `P ++ [e]`
    obtain ⟨hmid, hnu⟩ : Tracked (P ++ [e]) u x ∧ u.nextRevisionID = t.nextRevisionID :=
      undoAll (by rwa [List.append_assoc, List.singleton_append]) hu
    obtain ⟨hP, hn⟩ := hmid.revertStep env hstep
    exact ⟨hP, hn.trans hnu⟩

end Tracked

/-- `journal.revert` keeps the invariant with the journal it cuts back, and the revision counter. -/
theorem DirtiesInv.revertJournal {s s' : IntraBlockState Addr Hash} {x : Addr → ℕ} {snapshot : ℕ}
    (hx : DirtiesInv env s x) (h : s.revertJournal env snapshot = some s') :
    DirtiesInv env s' x ∧ s'.nextRevisionID = s.nextRevisionID := by
  have hj := journal_revertJournal env h
  obtain ⟨t, ht, rfl⟩ := Option.map_eq_some_iff.1 h
  obtain ⟨htracked, hn⟩ := Tracked.undoAll env (by rw [List.take_append_drop]; exact hx.tracked) ht
  refine ⟨⟨?_, hx.ripemd⟩, hn⟩
  rw [hj]
  exact ⟨htracked.addressed, htracked.revertsLive, htracked.counted⟩

theorem DirtiesInv.revertToSnapshot {s s' : IntraBlockState Addr Hash} {x : Addr → ℕ} {revid : ℕ}
    (hx : DirtiesInv env s x) (h : s.revertToSnapshot env revid = some s') : DirtiesInv env s' x := by
  obtain ⟨idx, r, t, -, -, ht, rfl⟩ := revertToSnapshot_eq_some env h
  exact (hx.revertJournal env ht).1.of_frame env rfl rfl rfl

/-- What `RevertToSnapshot` leaves of the journal and the revisions: the journal cut back to the length of the
revision of the id, the revisions before it, and the revision counter. -/
theorem DirtiesInv.revertToSnapshot_revisions {s s' : IntraBlockState Addr Hash} {x : Addr → ℕ} {revid : ℕ}
    (hx : DirtiesInv env s x) (h : s.revertToSnapshot env revid = some s') :
    ∃ idx r, s.validRevisions[idx]? = some r ∧ r.id = revid ∧ s'.journal = s.journal.take r.journalIndex ∧
      s'.validRevisions = s.validRevisions.take idx ∧ s'.nextRevisionID = s.nextRevisionID := by
  obtain ⟨idx, r, t, hr, hid, ht, rfl⟩ := revertToSnapshot_eq_some env h
  have hj : t.journal = s.journal.take r.journalIndex := journal_revertJournal env ht
  have hn : t.nextRevisionID = s.nextRevisionID := (hx.revertJournal env ht).2
  exact ⟨idx, r, hr, hid, hj, rfl, hn⟩

/-! ### The end of a transaction -/

omit [DecidableEq Hash] in
theorem dirtiesInv_softFinalise {s : IntraBlockState Addr Hash} {x : Addr → ℕ} (hx : DirtiesInv env s x) :
    DirtiesInv env s.softFinalise fun _ => 0 :=
  dirtiesInv_clearJournalAndRefund env hx.tracked.addressed

/-- The loop of `FinalizeTx` writes each dirty account back at its own address. -/
theorem addressed_finalizeDirty {ω : Type} (w : StateWriter Addr Hash ω) (rules : Rules) (systemAddress : Addr)
    (keys : Addr → List Hash) (t : IntraBlockState Addr Hash × ω) (addr : Addr) (h : Addressed t.1.stateObjects) :
    Addressed (finalizeDirty env w rules systemAddress keys t addr).1.stateObjects := by
  unfold finalizeDirty
  split_ifs
  · split
    · rename_i so hso
      have haddr := StateObject.updateAccount_address env w rules systemAddress addr so true t.2 (keys addr)
      rcases hu : so.updateAccount env w rules systemAddress addr true t.2 (keys addr) with ⟨so', o'⟩
      rw [hu] at haddr
      exact h.update (haddr.trans (h addr so hso))
    · exact h
  · exact h

/-- Loading the accounts whose increase waits is a run of lookups. -/
theorem dirtyStep_transferIncreases (s : IntraBlockState Addr Hash) (order : List Addr) :
    DirtyStep env s (s.transferIncreases env order) := by
  unfold transferIncreases
  refine ListFold.foldl_rel (DirtyStep env) DirtyStep.refl (fun _ _ _ => DirtyStep.trans) (fun t addr _ => ?_) s
  split
  · split
    · exact dirtyStep_getStateObject env t addr
    · exact .refl t
  · exact .refl t

theorem dirtiesInv_finalizeTx {ω : Type} (w : StateWriter Addr Hash ω) (rules : Rules) (systemAddress : Addr)
    {s : IntraBlockState Addr Hash} {x : Addr → ℕ} (hx : DirtiesInv env s x) (o : ω) (order : List Addr)
    (keys : Addr → List Hash) :
    DirtiesInv env (s.finalizeTx env w rules systemAddress o order keys).1 fun _ => 0 := by
  obtain ⟨x', hx'⟩ := dirtyStep_transferIncreases env s order x hx
  -- and the writes of the dirty accounts keep every object at its address
  have hwrite := ListFold.foldl_rel
    (fun t t' : IntraBlockState Addr Hash × ω => Addressed t.1.stateObjects → Addressed t'.1.stateObjects)
    (fun _ h => h) (fun _ _ _ h₁ h₂ h => h₂ (h₁ h))
    (fun t addr (_ : addr ∈ order) => addressed_finalizeDirty env w rules systemAddress keys t addr)
    (s.transferIncreases env order, o) hx'.inv.tracked.addressed
  unfold finalizeTx
  dsimp only
  rcases hf : order.foldl (finalizeDirty env w rules systemAddress keys) (s.transferIncreases env order, o) with
    ⟨s', o'⟩
  rw [hf] at hwrite
  exact dirtiesInv_clearJournalAndRefund env hwrite

/-! ### Runs of a block -/

/-- What the execution of a block does with the state, step after step: a call, `Snapshot`,
`RevertToSnapshot`, or the end of a transaction, `SoftFinalise` or `FinalizeTx` with the writer block
execution gives it. -/
inductive Op (Addr Hash : Type) where
  | call (c : Call Addr Hash)
  | snapshot
  | revertToSnapshot (revid : ℕ)
  | softFinalise
  | finalizeTx (rules : Rules) (systemAddress : Addr) (order : List Addr) (keys : Addr → List Hash)

/-- The state after a step; a call or a revert may panic. -/
def runOp (s : IntraBlockState Addr Hash) : Op Addr Hash → Option (IntraBlockState Addr Hash)
  | .call c => s.call env c
  | .snapshot => some s.snapshot.2
  | .revertToSnapshot revid => s.revertToSnapshot env revid
  | .softFinalise => some s.softFinalise
  | .finalizeTx rules systemAddress order keys => some (s.finalizeTx env noopWriter rules systemAddress () order keys).1

/-- The steps one after the other. -/
def runOps (s : IntraBlockState Addr Hash) : List (Op Addr Hash) → Option (IntraBlockState Addr Hash)
  | [] => some s
  | o :: ops => (s.runOp env o).bind fun s => s.runOps ops

theorem DirtiesInv.runOp {s s' : IntraBlockState Addr Hash} {x : Addr → ℕ} {o : Op Addr Hash}
    (hx : DirtiesInv env s x) (h : s.runOp env o = some s') : ∃ x', DirtiesInv env s' x' := by
  cases o with
  | call c =>
    obtain ⟨x', g⟩ := dirtyStep_call env h x hx
    exact ⟨x', g.inv⟩
  | snapshot =>
    cases h
    exact ⟨x, hx.of_frame env rfl rfl rfl⟩
  | revertToSnapshot revid => exact ⟨x, hx.revertToSnapshot env h⟩
  | softFinalise =>
    cases h
    exact ⟨_, dirtiesInv_softFinalise env hx⟩
  | finalizeTx rules systemAddress order keys =>
    cases h
    exact ⟨_, dirtiesInv_finalizeTx env noopWriter rules systemAddress hx () order keys⟩

/-- Every run keeps the invariant, step by step. -/
theorem DirtiesInv.runOps : ∀ {ops : List (Op Addr Hash)} {s s' : IntraBlockState Addr Hash} {x : Addr → ℕ},
    DirtiesInv env s x → s.runOps env ops = some s' → ∃ x', DirtiesInv env s' x'
  | [], s, s', x, hx, h => by
    cases h
    exact ⟨x, hx⟩
  | o :: ops, s, s', x, hx, h => by
    rw [IntraBlockState.runOps, Option.bind_eq_some_iff] at h
    obtain ⟨t, ht, hrun⟩ := h
    obtain ⟨x', hx'⟩ := hx.runOp env ht
    exact hx'.runOps hrun

/-- The calls of `journal.dirty` since the journal was last cleared, after a step from `s` to `s'` that started
with `n` of them: a call makes one for each touch of `ripemd` it journals, entries a later revert may cut; the
end of a transaction clears the journal. -/
def Op.dirtyCalls (s s' : IntraBlockState Addr Hash) (n : ℕ) : Op Addr Hash → ℕ
  | .call _ => n + (s'.journal.drop s.journal.length).countP (JournalEntry.isTouchOf env.ripemd)
  | .snapshot | .revertToSnapshot _ => n
  | .softFinalise | .finalizeTx .. => 0

/-- The calls of `journal.dirty` since the journal was last cleared, along a run that started with `n`. -/
def runDirtyCalls (s : IntraBlockState Addr Hash) (n : ℕ) : List (Op Addr Hash) → ℕ
  | [] => n
  | o :: ops =>
    match s.runOp env o with
    | some s' => runDirtyCalls s' (o.dirtyCalls env s s' n) ops
    | none => n

omit [DecidableEq Hash] in
/-- The explicit counts of a state are its own: the counts less the journal's entries. -/
theorem DirtiesInv.explicit_unique {s : IntraBlockState Addr Hash} {x x' : Addr → ℕ} (hx : DirtiesInv env s x)
    (hx' : DirtiesInv env s x') : x = x' := by
  funext a
  have h := congrArg (fun o => o.getD 0) ((hx.tracked.counted a).symm.trans (hx'.tracked.counted a))
  simp only [asDirties_getD] at h
  omega

/-- A step adds to the explicit count of `ripemd` its calls of `journal.dirty`, and the end of a transaction
resets it. -/
theorem DirtiesInv.runOp_dirtyCalls {s s' : IntraBlockState Addr Hash} {x : Addr → ℕ} {o : Op Addr Hash}
    (hx : DirtiesInv env s x) (h : s.runOp env o = some s') :
    ∃ x', DirtiesInv env s' x' ∧ x' env.ripemd = o.dirtyCalls env s s' (x env.ripemd) := by
  cases o with
  | call c =>
    obtain ⟨x', g⟩ := dirtyStep_call env h x hx
    obtain ⟨F, hF, hx'⟩ := g.journal
    -- the entries the call appends are the journal past its old length
    have hdrop : s'.journal.drop s.journal.length = F := by rw [hF, List.drop_left]
    refine ⟨x', g.inv, ?_⟩
    rw [hx', Op.dirtyCalls, hdrop, touchCount, if_pos rfl]
  | snapshot =>
    cases h
    exact ⟨x, hx.of_frame env rfl rfl rfl, rfl⟩
  | revertToSnapshot revid => exact ⟨x, hx.revertToSnapshot env h, rfl⟩
  | softFinalise =>
    cases h
    exact ⟨_, dirtiesInv_softFinalise env hx, rfl⟩
  | finalizeTx rules systemAddress order keys =>
    cases h
    exact ⟨_, dirtiesInv_finalizeTx env noopWriter rules systemAddress hx () order keys, rfl⟩

/-- Along a run, the explicit count of `ripemd` is its calls of `journal.dirty` since the last clear. -/
theorem DirtiesInv.runOps_dirtyCalls : ∀ {ops : List (Op Addr Hash)} {s s' : IntraBlockState Addr Hash}
    {x : Addr → ℕ}, DirtiesInv env s x → s.runOps env ops = some s' →
    ∃ x', DirtiesInv env s' x' ∧ x' env.ripemd = runDirtyCalls env s (x env.ripemd) ops
  | [], s, s', x, hx, h => by
    cases h
    exact ⟨x, hx, rfl⟩
  | o :: ops, s, s', x, hx, h => by
    rw [IntraBlockState.runOps, Option.bind_eq_some_iff] at h
    obtain ⟨t, ht, hrun⟩ := h
    obtain ⟨x₁, hx₁, h₁⟩ := hx.runOp_dirtyCalls env ht
    obtain ⟨x₂, hx₂, h₂⟩ := hx₁.runOps_dirtyCalls hrun
    refine ⟨x₂, hx₂, ?_⟩
    rw [h₂, h₁, runDirtyCalls, ht]

/-! ### What the counts say -/

omit [DecidableEq Hash] in
/-- The derived `dirties` of the journal are the addresses it has entries for. -/
theorem dirties_iff (s : IntraBlockState Addr Hash) (a : Addr) : s.dirties a = true ↔ dirtyCount s.journal a ≠ 0 := by
  simp [dirties, dirtyCount, List.countP_eq_zero]

omit [DecidableEq Hash] in
/-- The count of every address is its entries' count plus its explicit count, and no address is held with a
count of zero. -/
theorem DirtiesInv.journalDirties_eq {s : IntraBlockState Addr Hash} {x : Addr → ℕ} (hx : DirtiesInv env s x)
    (a : Addr) : (s.journalDirties a).getD 0 = ((dirtyCount s.journal a + x a : ℕ) : Int) ∧ s.journalDirties a ≠ some 0 := by
  rw [hx.tracked.counted a]
  exact ⟨asDirties_getD _, asDirties_ne_some_zero _⟩

omit [DecidableEq Hash] in
/-- The addresses `journal.dirties` holds: those the journal has entries for, and `ripemd` while it has an
explicit count. -/
theorem DirtiesInv.isSome_journalDirties {s : IntraBlockState Addr Hash} {x : Addr → ℕ} (hx : DirtiesInv env s x)
    (a : Addr) : (s.journalDirties a).isSome ↔ s.dirties a = true ∨ x a ≠ 0 := by
  rw [hx.tracked.counted a, isSome_asDirties, dirties_iff]
  omega

end IntraBlockState

end AmazeChain.State
