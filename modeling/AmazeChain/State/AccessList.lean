import Mathlib.Data.List.Basic
import Mathlib.Logic.Function.Basic

/-!
# The access list

`accessList` (`modules/state/access_list.go`): the addresses and storage slots a transaction has touched
(EIP-2929).  `addresses` maps an address to the index of its slot set in `slots`, or to `-1` while it has
none; a slot set is a Go map used as a set, a list without repeats here.  An index out of the range of
`slots`, where Go's `al.slots[idx]` panics, makes the operations that read it fail (`none`).

`WF`: every index an address holds is `-1` or that of a nonempty slot set.  The additions keep it, and from a
well-formed list the deletions the journal replays undo an addition exactly (`deleteAddress_addAddress`,
`undo_addSlot`).  The deletion of a slot set truncates `slots` at its index, which is exact only because
an addition creates its set at the end of `slots`.
-/

namespace AmazeChain.State

@[ext]
structure AccessList (Addr Hash : Type) where
  addresses : Addr → Option Int
  slots : List (List Hash)

namespace AccessList

set_option linter.unusedSectionVars false

variable {Addr Hash : Type} [DecidableEq Addr] [DecidableEq Hash]

/-- `newAccessList`. -/
def newAccessList : AccessList Addr Hash :=
  ⟨fun _ => none, []⟩

/-- `al.slots[idx]`, which panics unless `idx` is an index of `slots`. -/
def slotAt (al : AccessList Addr Hash) (idx : Int) : Option (List Hash) :=
  if 0 ≤ idx then al.slots[idx.toNat]? else none

/-- `ContainsAddress`. -/
def containsAddress (al : AccessList Addr Hash) (address : Addr) : Bool :=
  (al.addresses address).isSome

/-- `Contains`: whether the address and the slot are in the list. -/
def contains (al : AccessList Addr Hash) (address : Addr) (slot : Hash) : Option (Bool × Bool) :=
  match al.addresses address with
  | none => some (false, false)
  | some idx =>
    if idx = -1 then some (true, false)
    else (al.slotAt idx).map fun slotmap => (true, decide (slot ∈ slotmap))

/-- `AddAddress`: whether the address was new. -/
def addAddress (al : AccessList Addr Hash) (address : Addr) : Bool × AccessList Addr Hash :=
  if (al.addresses address).isSome then (false, al)
  else (true, { al with addresses := Function.update al.addresses address (some (-1)) })

/-- The list after an address without a slot set gets one, holding `slot`, at the end of `slots`. -/
def withSlotSet (al : AccessList Addr Hash) (address : Addr) (slot : Hash) : AccessList Addr Hash :=
  { addresses := Function.update al.addresses address (some (al.slots.length : Int)),
    slots := al.slots ++ [[slot]] }

/-- `AddSlot`: whether the address and whether the slot were new. -/
def addSlot (al : AccessList Addr Hash) (address : Addr) (slot : Hash) :
    Option ((Bool × Bool) × AccessList Addr Hash) :=
  match al.addresses address with
  | none => some ((true, true), al.withSlotSet address slot)
  | some idx =>
    if idx = -1 then some ((false, true), al.withSlotSet address slot)
    else
      (al.slotAt idx).map fun slotmap =>
        if slot ∈ slotmap then ((false, false), al)
        else ((false, true), { al with slots := al.slots.set idx.toNat (slotmap ++ [slot]) })

/-- `DeleteSlot`: it panics when the address is not in the list; a slot set left empty goes, with every set
after it. -/
def deleteSlot (al : AccessList Addr Hash) (address : Addr) (slot : Hash) : Option (AccessList Addr Hash) :=
  match al.addresses address with
  | none => none
  | some idx =>
    (al.slotAt idx).map fun slotmap =>
      if slotmap.erase slot = [] then
        { addresses := Function.update al.addresses address (some (-1)), slots := al.slots.take idx.toNat }
      else { al with slots := al.slots.set idx.toNat (slotmap.erase slot) }

/-- `DeleteAddress`. -/
def deleteAddress (al : AccessList Addr Hash) (address : Addr) : AccessList Addr Hash :=
  { al with addresses := Function.update al.addresses address none }

/-- Every index an address holds is `-1` or that of a nonempty slot set. -/
def WF (al : AccessList Addr Hash) : Prop :=
  ∀ address idx, al.addresses address = some idx → idx = -1 ∨ ∃ slotmap, al.slotAt idx = some slotmap ∧ slotmap ≠ []

theorem wf_newAccessList : (newAccessList : AccessList Addr Hash).WF := by
  intro address idx h
  cases h

theorem slotAt_withSlotSet (al : AccessList Addr Hash) (address : Addr) (slot : Hash) {idx : Int}
    (h : al.slotAt idx = some slotmap) : (al.withSlotSet address slot).slotAt idx = some slotmap := by
  unfold slotAt at h ⊢
  split_ifs at h ⊢ with hidx
  simp only [withSlotSet]
  rw [List.getElem?_append_left (List.getElem?_eq_some_iff.1 h).1]
  exact h

theorem slotAt_withSlotSet_length (al : AccessList Addr Hash) (address : Addr) (slot : Hash) :
    (al.withSlotSet address slot).slotAt (al.slots.length : Int) = some [slot] := by
  simp [slotAt, withSlotSet]

theorem slotAt_nonneg {al : AccessList Addr Hash} {idx : Int} {slotmap : List Hash}
    (h : al.slotAt idx = some slotmap) : 0 ≤ idx := by
  unfold slotAt at h
  split_ifs at h with hidx
  exact hidx

/-- A set found at `idx` is the entry of `slots` there. -/
theorem getElem_of_slotAt {al : AccessList Addr Hash} {idx : Int} {slotmap : List Hash}
    (h : al.slotAt idx = some slotmap) : ∃ hlt : idx.toNat < al.slots.length, al.slots[idx.toNat] = slotmap := by
  unfold slotAt at h
  split_ifs at h
  exact List.getElem?_eq_some_iff.1 h

theorem slotAt_set (al : AccessList Addr Hash) {idx idx' : Int} {slotmap' : List Hash} (hidx : 0 ≤ idx)
    (h' : al.slotAt idx' = some slotmap') (l : List Hash) :
    ({ al with slots := al.slots.set idx.toNat l } : AccessList Addr Hash).slotAt idx' =
      if idx' = idx then some l else some slotmap' := by
  unfold slotAt at h' ⊢
  split_ifs at h' ⊢ with hidx' heq
  · subst heq
    have hlt := (List.getElem?_eq_some_iff.1 h').1
    simp [hlt]
  · have hne : idx.toNat ≠ idx'.toNat := by omega
    rw [List.getElem?_set_ne hne]
    exact h'

theorem WF.withSlotSet {al : AccessList Addr Hash} (hwf : al.WF) (address : Addr) (slot : Hash) :
    (al.withSlotSet address slot).WF := by
  intro a idx h
  by_cases ha : a = address
  · -- the address's new set holds the slot
    subst ha
    simp only [AccessList.withSlotSet, Function.update_self, Option.some.injEq] at h
    subst h
    exact .inr ⟨[slot], slotAt_withSlotSet_length al a slot, List.cons_ne_nil _ _⟩
  · simp only [AccessList.withSlotSet, Function.update_of_ne ha] at h
    rcases hwf a idx h with h | ⟨slotmap, hs, hne⟩
    · exact .inl h
    · exact .inr ⟨slotmap, slotAt_withSlotSet al address slot hs, hne⟩

theorem WF.addAddress {al : AccessList Addr Hash} (hwf : al.WF) (address : Addr) :
    (al.addAddress address).2.WF := by
  unfold AccessList.addAddress
  split_ifs
  · exact hwf
  · intro a idx h
    by_cases ha : a = address
    · subst ha
      simp only [Function.update_self, Option.some.injEq] at h
      exact .inl h.symm
    · simp only [Function.update_of_ne ha] at h
      exact hwf a idx h

theorem WF.addSlot {al al' : AccessList Addr Hash} (hwf : al.WF) {address : Addr} {slot : Hash}
    {mods : Bool × Bool} (h : al.addSlot address slot = some (mods, al')) : al'.WF := by
  unfold AccessList.addSlot at h
  split at h
  · cases h
    exact hwf.withSlotSet address slot
  · rename_i idx hidx
    split_ifs at h with h₁
    · cases h
      exact hwf.withSlotSet address slot
    · obtain ⟨slotmap, hs, h⟩ := Option.map_eq_some_iff.1 h
      split_ifs at h with h₂
      · cases h
        exact hwf
      · -- the slot joins the address's set; every other set stays
        cases h
        intro a idx' ha
        rcases hwf a idx' ha with h | ⟨slotmap', hs', hne⟩
        · exact .inl h
        · refine .inr ⟨if idx' = idx then slotmap ++ [slot] else slotmap', ?_, ?_⟩
          · rw [slotAt_set al (slotAt_nonneg hs) hs']
            split_ifs <;> rfl
          · split_ifs
            · simp
            · exact hne

/-- Deleting an address that was new undoes its addition. -/
theorem deleteAddress_addAddress {al : AccessList Addr Hash} {address : Addr} {al' : AccessList Addr Hash}
    (h : al.addAddress address = (true, al')) : al'.deleteAddress address = al := by
  unfold AccessList.addAddress at h
  split_ifs at h with hmem
  · -- an address already in the list is not new
    exact absurd (Prod.mk.inj h).1 Bool.false_ne_true
  · obtain ⟨-, rfl⟩ := Prod.mk.inj h
    have hnone : al.addresses address = none := Option.not_isSome_iff_eq_none.1 hmem
    ext1
    · simp only [deleteAddress, Function.update_idem]
      exact Function.update_eq_self_iff.2 hnone.symm
    · rfl

/-- The undo of a slot set made at the end of `slots`: the set goes, and the address holds `-1`. -/
theorem deleteSlot_withSlotSet (al : AccessList Addr Hash) (address : Addr) (slot : Hash) :
    (al.withSlotSet address slot).deleteSlot address slot =
      some { al with addresses := Function.update al.addresses address (some (-1)) } := by
  have haddr : (al.withSlotSet address slot).addresses address = some (al.slots.length : Int) := by
    simp [withSlotSet]
  unfold deleteSlot
  rw [haddr]
  dsimp only
  rw [slotAt_withSlotSet_length, Option.map_some, if_pos (List.erase_cons_head slot [])]
  simp [withSlotSet]

/-- The journal's undo of `AddSlot`, from a well-formed list: delete the slot if it was new, then the address
if it was new. -/
theorem undo_addSlot {al al' : AccessList Addr Hash} (hwf : al.WF) {address : Addr} {slot : Hash}
    {addrMod slotMod : Bool} (h : al.addSlot address slot = some ((addrMod, slotMod), al')) :
    (if slotMod then al'.deleteSlot address slot else some al').map
      (fun al => if addrMod then al.deleteAddress address else al) = some al := by
  unfold AccessList.addSlot at h
  split at h
  · -- a new address: its set and then the address go
    rename_i hnone
    cases h
    rw [if_pos rfl, deleteSlot_withSlotSet]
    simp only [Option.map_some, if_true, Option.some.injEq]
    ext1
    · simp only [deleteAddress, Function.update_idem]
      exact Function.update_eq_self_iff.2 hnone.symm
    · rfl
  · rename_i idx hidx
    split_ifs at h with h₁
    · -- an address without a set: the set goes and the address holds `-1` again
      cases h
      subst h₁
      rw [if_pos rfl, deleteSlot_withSlotSet]
      simp only [Option.map_some, Bool.false_eq_true, if_false, Option.some.injEq]
      ext1
      · exact Function.update_eq_self_iff.2 hidx.symm
      · rfl
    · obtain ⟨slotmap, hs, h⟩ := Option.map_eq_some_iff.1 h
      split_ifs at h with h₂
      · cases h
        rfl
      · -- the slot leaves the set it joined, which stays nonempty
        cases h
        have hne : slotmap ≠ [] := by
          rcases hwf address idx hidx with h | ⟨slotmap', hs', hne⟩
          · exact absurd h h₁
          · rw [hs] at hs'
            cases hs'
            exact hne
        have herase : (slotmap ++ [slot]).erase slot = slotmap := by
          rw [List.erase_append_right _ h₂]
          simp
        have hat := slotAt_set al (slotAt_nonneg hs) hs (slotmap ++ [slot])
        rw [if_pos rfl] at hat
        simp only [if_true, deleteSlot, hidx, hat, Option.map_some, herase, hne, if_false, Bool.false_eq_true,
          Option.some.injEq]
        ext1
        · rfl
        · obtain ⟨hlt, hget⟩ := getElem_of_slotAt hs
          simp only [List.set_set]
          rw [← hget, List.set_getElem_self]

/-- A well-formed list answers `Contains` for an address it holds, which it reports present. -/
theorem WF.contains_of_isSome {al : AccessList Addr Hash} (hwf : al.WF) {address : Addr}
    (ha : (al.addresses address).isSome) (slot : Hash) :
    ∃ slotPresent, al.contains address slot = some (true, slotPresent) := by
  obtain ⟨idx, hidx⟩ := Option.isSome_iff_exists.1 ha
  unfold contains
  rw [hidx]
  dsimp only
  split_ifs with h₁
  · exact ⟨false, rfl⟩
  · rcases hwf address idx hidx with h | ⟨slotmap, hs, -⟩
    · exact absurd h h₁
    · exact ⟨_, by rw [hs]; rfl⟩

/-- `AddSlot` on a well-formed list does not fail, and the address is in the list after it. -/
theorem WF.addSlot_isSome {al : AccessList Addr Hash} (hwf : al.WF) (address : Addr) (slot : Hash) :
    ∃ mods al', al.addSlot address slot = some (mods, al') ∧ (al'.addresses address).isSome := by
  unfold AccessList.addSlot
  split
  · exact ⟨_, _, rfl, by simp [AccessList.withSlotSet]⟩
  · rename_i idx hidx
    split_ifs with h₁
    · exact ⟨_, _, rfl, by simp [AccessList.withSlotSet]⟩
    · rcases hwf address idx hidx with h | ⟨slotmap, hs, -⟩
      · exact absurd h h₁
      · -- the slot joins the address's set, or is there already: the address keeps its index
        rw [hs, Option.map_some]
        split_ifs
        · exact ⟨_, _, rfl, by simp [hidx]⟩
        · exact ⟨_, _, rfl, by simp [hidx]⟩

end AccessList

end AmazeChain.State
