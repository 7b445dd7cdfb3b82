import Mathlib.Data.List.AList

/-!
# The elements held by a map of collections

`AList.bag f s` joins the lists `f a b` over the entries `⟨a, b⟩` of an association list: the elements a map
whose values are collections holds.  Up to permutation, writing the value at one key replaces its part of the
bag and erasing it removes that part (`bag_insert`, `perm_bag_erase`), so a property of the bag that
survives permutations is checked at the key an update touches, the other keys' parts carried along.
-/

namespace AList

variable {α γ : Type*} {β : α → Type*}

/-- The elements held by the values of `s`, read through `f`. -/
def bag (f : (a : α) → β a → List γ) (s : AList β) : List γ :=
  s.entries.flatMap fun e => f e.1 e.2

@[simp] theorem bag_empty (f : (a : α) → β a → List γ) : bag f (∅ : AList β) = [] := rfl

variable [DecidableEq α]

theorem bag_insert (f : (a : α) → β a → List γ) (s : AList β) (a : α) (b : β a) :
    bag f (s.insert a b) = f a b ++ bag f (s.erase a) := by
  simp only [bag, entries_insert, List.flatMap_cons]
  rfl

/-- An entry present in `s` is one of its entries and the rest is `s.erase a`. -/
theorem perm_entries_erase {s : AList β} {a : α} {b : β a} (h : s.lookup a = some b) :
    s.entries.Perm (⟨a, b⟩ :: (s.erase a).entries) := by
  have ha : a ∈ s.entries.keys := mem_keys.1 (lookup_isSome.1 (by rw [h]; rfl))
  obtain ⟨b', l₁, l₂, hl₁, hs, he⟩ := List.exists_of_kerase ha
  -- the entry found by the split is the one `lookup` reads
  have hb : b' = b := by
    have hmem : (⟨a, b'⟩ : Sigma β) ∈ s.entries := by rw [hs]; simp
    have := mem_lookup_iff.2 hmem
    rw [h] at this
    exact (Option.some.inj this).symm
  subst hb
  change s.entries.Perm (⟨a, b'⟩ :: List.kerase a s.entries)
  rw [he, hs]
  exact List.perm_middle

theorem perm_bag_erase (f : (a : α) → β a → List γ) {s : AList β} {a : α} {b : β a}
    (h : s.lookup a = some b) : (bag f s).Perm (f a b ++ bag f (s.erase a)) := by
  have := (perm_entries_erase h).flatMap_right fun e => f e.1 e.2
  simpa [bag] using this

theorem erase_of_lookup_eq_none {s : AList β} {a : α} (h : s.lookup a = none) : s.erase a = s :=
  ext (List.kerase_of_notMem_keys fun ha => lookup_eq_none.1 h (mem_keys.2 ha))

/-- Replacing the value `b` at `a` by `b'`, as a change of the bag. -/
theorem perm_bag_insert_of_lookup (f : (a : α) → β a → List γ) {s : AList β} {a : α} {b : β a}
    (h : s.lookup a = some b) (b' : β a) :
    (bag f (s.insert a b') ++ f a b).Perm (bag f s ++ f a b') := by
  rw [bag_insert]
  -- swap the old and the new value around the rest of the bag
  have hswap : (f a b' ++ bag f (s.erase a) ++ f a b).Perm (f a b ++ (bag f (s.erase a) ++ f a b')) :=
    List.perm_append_comm.trans (List.perm_append_comm.append_left _)
  rw [← List.append_assoc] at hswap
  exact hswap.trans ((perm_bag_erase f h).symm.append_right _)

theorem bag_insert_of_lookup_eq_none (f : (a : α) → β a → List γ) {s : AList β} {a : α}
    (h : s.lookup a = none) (b' : β a) : bag f (s.insert a b') = f a b' ++ bag f s := by
  rw [bag_insert, erase_of_lookup_eq_none h]

theorem lookup_erase_eq_some {s : AList β} {a a' : α} {b : β a} :
    (s.erase a').lookup a = some b ↔ a ≠ a' ∧ s.lookup a = some b := by
  rcases eq_or_ne a a' with rfl | hne
  · simp [lookup_erase]
  · rw [lookup_erase_ne hne]
    exact ⟨fun h => ⟨hne, h⟩, fun h => h.2⟩

theorem mem_entries_erase_of_ne {s : AList β} {e : Sigma β} (he : e ∈ s.entries) {a : α} (h : e.1 ≠ a) :
    e ∈ (s.erase a).entries := by
  rw [← mem_lookup_iff, lookup_erase_ne h, mem_lookup_iff]
  exact he

theorem mem_bag {f : (a : α) → β a → List γ} {s : AList β} {x : γ} :
    x ∈ bag f s ↔ ∃ a b, s.lookup a = some b ∧ x ∈ f a b := by
  simp only [bag, List.mem_flatMap]
  constructor
  · rintro ⟨⟨a, b⟩, he, hx⟩
    exact ⟨a, b, mem_lookup_iff.2 he, hx⟩
  · rintro ⟨a, b, hl, hx⟩
    exact ⟨⟨a, b⟩, mem_lookup_iff.1 hl, hx⟩

end AList
