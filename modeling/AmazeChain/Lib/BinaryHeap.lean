import Mathlib.Logic.Equiv.Basic
import Mathlib.Data.List.Nodup
import Mathlib.Data.List.Perm.Basic
import Mathlib.Order.Basic

/-!
# Binary heaps as Go's `container/heap` keeps them

`container/heap` keeps a min-heap in a slice through the slice's `Less`, `Swap`, `Push` and `Pop`: `up` moves an
element towards the root while it is less than its parent, `down` moves it towards the leaves while a child is
less, and `Push`, `Pop`, `Remove` and `Init` are made of those.  A slice is its length and its elements
(`Slice`), compared by a total preorder, as `Less` may leave two elements level.

Every operation permutes the elements of the slice, but for the one `Push` appends and the one `Pop` and
`Remove` return (`push_perm`, `pop_spec`, `remove_spec`, `init_perm`), and keeps the heap order, every element
at least its parent (`Slice.IsHeap`); `Init` makes it from any slice.  The proofs follow the element that moves: every
pair of parent and child is in order but those at the element's position (`DownOrder`, `UpOrder`), and each
swap carries that to the next position.  The root of a heap is its least element (`HeapFrom.get_zero_le`).
-/

set_option linter.unusedSectionVars false

namespace BinaryHeap

/-- A slice: its length and its elements. -/
structure Slice (α : Type) where
  size : ℕ
  get : ℕ → α

variable {α : Type}

namespace Slice

/-- The elements in order. -/
def toList (h : Slice α) : List α := (List.range h.size).map h.get

/-- `Swap(i, j)`. -/
def swap (h : Slice α) (i j : ℕ) : Slice α := ⟨h.size, h.get ∘ Equiv.swap i j⟩

/-- The slice's own `Push`: append. -/
def push (h : Slice α) (x : α) : Slice α := ⟨h.size + 1, Function.update h.get h.size x⟩

/-- The slice's own `Pop`: the last element, and the slice without it. -/
def pop (h : Slice α) : α × Slice α := (h.get (h.size - 1), ⟨h.size - 1, h.get⟩)

/-- A slice of the elements of a list. -/
def ofList [Inhabited α] (l : List α) : Slice α := ⟨l.length, fun i => l.getD i default⟩

@[simp] theorem swap_size (h : Slice α) (i j : ℕ) : (h.swap i j).size = h.size := rfl

@[simp] theorem swap_get_left (h : Slice α) (i j : ℕ) : (h.swap i j).get i = h.get j := by
  simp [swap]

@[simp] theorem swap_get_right (h : Slice α) (i j : ℕ) : (h.swap i j).get j = h.get i := by
  simp [swap]

theorem swap_get_of_ne (h : Slice α) {i j k : ℕ} (hi : k ≠ i) (hj : k ≠ j) : (h.swap i j).get k = h.get k := by
  simp [swap, Equiv.swap_apply_of_ne_of_ne hi hj]

theorem swap_lt {i j b n : ℕ} (hi : i < n) (hj : j < n) (hb : b < n) : Equiv.swap i j b < n := by
  rcases eq_or_ne b i with rfl | hbi
  · rwa [Equiv.swap_apply_left]
  · rcases eq_or_ne b j with rfl | hbj
    · rwa [Equiv.swap_apply_right]
    · rwa [Equiv.swap_apply_of_ne_of_ne hbi hbj]

theorem swap_perm (h : Slice α) {i j : ℕ} (hi : i < h.size) (hj : j < h.size) :
    (h.swap i j).toList.Perm h.toList := by
  unfold toList swap
  rw [← List.map_map]
  refine List.Perm.map _ ?_
  -- the swap permutes the positions of the slice
  rw [List.perm_ext_iff_of_nodup (List.Nodup.map (Equiv.swap i j).injective List.nodup_range) List.nodup_range]
  intro a
  simp only [List.mem_map, List.mem_range]
  constructor
  · rintro ⟨b, hb, rfl⟩
    exact swap_lt hi hj hb
  · intro ha
    exact ⟨Equiv.swap i j a, swap_lt hi hj ha, Equiv.swap_apply_self _ _ _⟩

@[simp] theorem length_toList (h : Slice α) : h.toList.length = h.size := by
  simp [toList]

theorem mem_toList {h : Slice α} {x : α} : x ∈ h.toList ↔ ∃ i < h.size, h.get i = x := by
  simp [toList]

theorem toList_push (h : Slice α) (x : α) : (h.push x).toList = h.toList ++ [x] := by
  simp only [toList, push, List.range_succ, List.map_append, List.map_cons, List.map_nil,
    Function.update_self, List.append_cancel_right_eq]
  refine List.map_congr_left fun k hk => ?_
  rw [Function.update_of_ne (Nat.ne_of_lt (List.mem_range.1 hk))]

theorem toList_pop (h : Slice α) (hpos : 0 < h.size) : h.pop.2.toList ++ [h.pop.1] = h.toList := by
  obtain ⟨n, get⟩ := h
  obtain ⟨m, rfl⟩ : ∃ m, n = m + 1 := ⟨n - 1, by simp only at hpos; omega⟩
  simp only [toList, pop, Nat.add_sub_cancel, List.range_succ, List.map_append, List.map_cons, List.map_nil]

/-- The first `k` elements of a list, as a slice. -/
theorem toList_ofList_take [Inhabited α] (l : List α) {k : ℕ} (hk : k ≤ l.length) :
    (⟨k, (ofList l).get⟩ : Slice α).toList = l.take k := by
  refine List.ext_getElem (by simp [toList, hk]) fun m h₁ _ => ?_
  have hm : m < k := by simpa [toList] using h₁
  simp only [toList, ofList, List.getElem_map, List.getElem_range, List.getElem_take]
  rw [List.getD_eq_getElem?_getD, List.getElem?_eq_getElem (by omega), Option.getD_some]

theorem toList_ofList [Inhabited α] (l : List α) : (ofList l).toList = l := by
  exact (toList_ofList_take l (Nat.le_refl _)).trans List.take_length

end Slice

/-- The parent of position `c`. -/
def parent (c : ℕ) : ℕ := (c - 1) / 2

theorem parent_lt {c : ℕ} (hc : 0 < c) : parent c < c := by
  unfold parent
  omega

theorem parent_le (c : ℕ) : parent c ≤ c := by
  unfold parent
  omega

variable [Preorder α] [DecidableLT α]

/-! ### The operations -/

/-- `up`: the element at `j` moves towards the root while it is less than its parent. -/
def up (h : Slice α) (j : ℕ) : Slice α :=
  if _hstop : parent j = j ∨ ¬ h.get j < h.get (parent j) then h
  else up (h.swap (parent j) j) (parent j)
termination_by j
decreasing_by
  have hle := parent_le j
  have hne : parent j ≠ j := fun e => _hstop (.inl e)
  omega

/-- The child of `i` that `down` compares the element with: the right one when it is less than the left. -/
def minChild (h : Slice α) (i n : ℕ) : ℕ :=
  if 2 * i + 2 < n ∧ h.get (2 * i + 2) < h.get (2 * i + 1) then 2 * i + 2 else 2 * i + 1

theorem minChild_ge (h : Slice α) (i n : ℕ) : 2 * i + 1 ≤ minChild h i n := by
  unfold minChild
  split <;> omega

theorem minChild_lt {h : Slice α} {i n : ℕ} (hn : 2 * i + 1 < n) : minChild h i n < n := by
  unfold minChild
  split <;> omega

theorem parent_minChild (h : Slice α) (i n : ℕ) : parent (minChild h i n) = i := by
  unfold minChild parent
  split <;> omega

/-- The loop of `down` from position `i`: the slice, and the position the element stops at. -/
def downLoop (h : Slice α) (i n : ℕ) : Slice α × ℕ :=
  if _hleaf : n ≤ 2 * i + 1 then (h, i)
  else if ¬ h.get (minChild h i n) < h.get i then (h, i)
  else downLoop (h.swap i (minChild h i n)) (minChild h i n) n
termination_by n - i
decreasing_by
  have := minChild_ge h i n
  omega

/-- `down`: the slice, and whether the element moved. -/
def down (h : Slice α) (i0 n : ℕ) : Slice α × Bool :=
  ((downLoop h i0 n).1, decide (i0 < (downLoop h i0 n).2))

/-- `heap.Push`. -/
def push (h : Slice α) (x : α) : Slice α := up (h.push x) h.size

/-- `heap.Pop`: the root goes to the end, the new root moves down, and the end is cut off. -/
def pop (h : Slice α) : α × Slice α :=
  let n := h.size - 1
  (down (h.swap 0 n) 0 n).1.pop

/-- `heap.Remove`: the element at `i` goes to the end, the last element moves down or up from `i`, and the
end is cut off. -/
def remove (h : Slice α) (i : ℕ) : α × Slice α :=
  let n := h.size - 1
  if n ≠ i then
    let r := down (h.swap i n) i n
    (if !r.2 then up r.1 i else r.1).pop
  else h.pop

/-- The loop of `heap.Init`: `down` from each position below `k`, the highest first. -/
def initLoop (n : ℕ) (h : Slice α) : ℕ → Slice α
  | 0 => h
  | k + 1 => initLoop n (down h k n).1 k

/-- `heap.Init`. -/
def init (h : Slice α) : Slice α := initLoop h.size h (h.size / 2)

/-! ### Sizes, contents and the positions left alone -/

theorem up_size (h : Slice α) (j : ℕ) : (up h j).size = h.size := by
  fun_induction up h j with
  | case1 => rfl
  | case2 h j _ ih => rw [ih, Slice.swap_size]

theorem downLoop_size (h : Slice α) (i n : ℕ) : (downLoop h i n).1.size = h.size := by
  fun_induction downLoop h i n with
  | case1 => rfl
  | case2 => rfl
  | case3 h i _ _ ih => rw [ih, Slice.swap_size]

theorem up_perm (h : Slice α) (j : ℕ) (hj : j < h.size) : (up h j).toList.Perm h.toList := by
  fun_induction up h j with
  | case1 => exact List.Perm.refl _
  | case2 h j _ ih =>
    have hp : parent j < h.size := by
      have := parent_le j
      omega
    exact (ih hp).trans (h.swap_perm hp hj)

/-- `up` from `j` moves nothing after `j`. -/
theorem up_get_of_lt (h : Slice α) (j : ℕ) {m : ℕ} (hm : j < m) : (up h j).get m = h.get m := by
  fun_induction up h j with
  | case1 => rfl
  | case2 h j _ ih =>
    have hle := parent_le j
    rw [ih (by omega), Slice.swap_get_of_ne _ (by omega) (by omega)]

theorem downLoop_perm (h : Slice α) (i n : ℕ) (hn : n ≤ h.size) :
    (downLoop h i n).1.toList.Perm h.toList := by
  fun_induction downLoop h i n with
  | case1 => exact List.Perm.refl _
  | case2 => exact List.Perm.refl _
  | case3 h i hleaf _ ih =>
    have hj : minChild h i n < n := minChild_lt (by omega)
    exact (ih hn).trans (h.swap_perm (by omega) (by omega))

/-- `down` below `n` moves nothing from `n` on. -/
theorem downLoop_get_of_le (h : Slice α) (i n : ℕ) {m : ℕ} (hm : n ≤ m) : (downLoop h i n).1.get m = h.get m := by
  fun_induction downLoop h i n with
  | case1 => rfl
  | case2 => rfl
  | case3 h i hleaf _ ih =>
    have hj : minChild h i n < n := minChild_lt (by omega)
    rw [ih, Slice.swap_get_of_ne _ (by omega) (by omega)]


/-! ### The heap order -/

variable [Std.Total (fun a b : α => a ≤ b)]

/-- In a total preorder an element that is not below another is at least it. -/
theorem le_of_not_lt' {a b : α} (h : ¬ a < b) : b ≤ a := by
  rcases total_of (· ≤ ·) a b with hab | hba
  · exact Classical.byContradiction fun hba => h (lt_of_le_not_ge hab hba)
  · exact hba

/-- The child `down` picks holds at most each child. -/
theorem minChild_le {h : Slice α} {i n c : ℕ} (hc : 0 < c) (hcn : c < n) (hpc : parent c = i) :
    h.get (minChild h i n) ≤ h.get c := by
  have hc' : c = 2 * i + 1 ∨ c = 2 * i + 2 := by
    unfold parent at hpc
    omega
  unfold minChild
  split
  · rename_i hright
    rcases hc' with rfl | rfl
    · exact le_of_lt hright.2
    · exact le_rfl
  · rename_i hleft
    rcases hc' with rfl | rfl
    · exact le_rfl
    · exact le_of_not_lt' fun hlt => hleft ⟨hcn, hlt⟩

/-- Every position below `n` whose parent is at least `k` holds at least its parent. -/
def HeapFrom (h : Slice α) (n k : ℕ) : Prop :=
  ∀ c, 0 < c → c < n → k ≤ parent c → h.get (parent c) ≤ h.get c

/-- The heap order of the whole slice. -/
def Slice.IsHeap (h : Slice α) : Prop := HeapFrom h h.size 0

/-- The root holds the least element. -/
theorem HeapFrom.get_zero_le {h : Slice α} {n : ℕ} (hh : HeapFrom h n 0) (i : ℕ) (hi : i < n) :
    h.get 0 ≤ h.get i := by
  induction i using Nat.strongRecOn with
  | ind i ih =>
    rcases Nat.eq_zero_or_pos i with rfl | hpos
    · exact le_rfl
    · have hp := parent_lt hpos
      exact (ih (parent i) hp (by omega)).trans (hh i hpos hi (Nat.zero_le _))

/-- The root of a heap is at most every element. -/
theorem Slice.IsHeap.get_zero_le {h : Slice α} (hh : h.IsHeap) {x : α} (hx : x ∈ h.toList) : h.get 0 ≤ x := by
  obtain ⟨i, hi, rfl⟩ := Slice.mem_toList.1 hx
  exact HeapFrom.get_zero_le hh i hi

/-- What `down` keeps for the element at `i`: every pair in scope is in order but those at `i`, and the
children of `i` hold at least the parent of `i`. -/
structure DownOrder (h : Slice α) (n k i : ℕ) : Prop where
  except : ∀ c, 0 < c → c < n → k ≤ parent c → c ≠ i → parent c ≠ i → h.get (parent c) ≤ h.get c
  grand : ∀ c, 0 < c → c < n → parent c = i → 0 < i → k ≤ parent i → h.get (parent i) ≤ h.get c

/-- The swap with the lesser child moves the order down with the element. -/
theorem DownOrder.swap {h : Slice α} {n k i : ℕ} (o : DownOrder h n k i) (hk : k ≤ i) (hn : 2 * i + 1 < n)
    (hlt : h.get (minChild h i n) < h.get i) : DownOrder (h.swap i (minChild h i n)) n k (minChild h i n) := by
  have hjp := parent_minChild h i n
  have hij : i < minChild h i n := by have := minChild_ge h i n; omega
  have hjn : minChild h i n < n := minChild_lt hn
  constructor
  · intro c hc hcn hkc hcj hpcj
    by_cases hci : c = i
    · -- the lesser child now sits under the parent of `i`
      subst hci
      have hp := parent_lt hc
      rw [Slice.swap_get_left, Slice.swap_get_of_ne _ (by omega) (by omega)]
      exact o.grand _ (by omega) hjn hjp hc hkc
    · by_cases hpci : parent c = i
      · -- the other child of `i`
        rw [hpci, Slice.swap_get_left, Slice.swap_get_of_ne _ hci hcj]
        exact minChild_le hc hcn hpci
      · rw [Slice.swap_get_of_ne _ hpci hpcj, Slice.swap_get_of_ne _ hci hcj]
        exact o.except c hc hcn hkc hci hpci
  · intro c hc hcn hpc _ _
    have hcgt := parent_lt hc
    rw [hjp, Slice.swap_get_left, Slice.swap_get_of_ne _ (by omega) (by omega)]
    have := o.except c hc hcn (by omega) (by omega) (by omega)
    rwa [hpc] at this

/-- The order `down` ends with, and the element's own pair: unmoved, or below its new parent. -/
theorem downLoop_spec (h : Slice α) (i n : ℕ) {k : ℕ} (hk : k ≤ i) (o : DownOrder h n k i) :
    DownOrder (downLoop h i n).1 n k (downLoop h i n).2 ∧
      (∀ c, 0 < c → c < n → parent c = (downLoop h i n).2 →
        (downLoop h i n).1.get (downLoop h i n).2 ≤ (downLoop h i n).1.get c) ∧
      (((downLoop h i n).2 = i ∧ (downLoop h i n).1 = h) ∨
        (i < (downLoop h i n).2 ∧
          (downLoop h i n).1.get (parent (downLoop h i n).2) ≤ (downLoop h i n).1.get (downLoop h i n).2)) := by
  fun_induction downLoop h i n with
  | case1 h i hleaf =>
    -- a leaf: no child is in scope
    refine ⟨o, fun c hc hcn hpc => ?_, .inl ⟨rfl, rfl⟩⟩
    unfold parent at hpc
    omega
  | case2 h i hleaf hge =>
    exact ⟨o, fun c hc hcn hpc => (le_of_not_lt' hge).trans (minChild_le hc hcn hpc), .inl ⟨rfl, rfl⟩⟩
  | case3 h i hleaf hlt ih =>
    have hij : i < minChild h i n := by have := minChild_ge h i n; omega
    obtain ⟨o', hbelow, hmoved⟩ := ih (by omega) (o.swap hk (by omega) (not_not.1 hlt))
    refine ⟨o', hbelow, .inr ?_⟩
    rcases hmoved with ⟨hpos, hr⟩ | ⟨hlt', habove⟩
    · rw [hpos, hr, parent_minChild, Slice.swap_get_left, Slice.swap_get_right]
      exact ⟨hij, le_of_lt (not_not.1 hlt)⟩
    · exact ⟨by omega, habove⟩

/-- The pairs but the element's own are in order, its own pair is too, so the order holds. -/
theorem DownOrder.heapFrom {h : Slice α} {n k i : ℕ} (o : DownOrder h n k i)
    (hbelow : ∀ c, 0 < c → c < n → parent c = i → h.get i ≤ h.get c)
    (habove : 0 < i → i < n → k ≤ parent i → h.get (parent i) ≤ h.get i) : HeapFrom h n k := by
  intro c hc hcn hkc
  by_cases hci : c = i
  · subst hci
    exact habove hc hcn hkc
  · by_cases hpc : parent c = i
    · rw [hpc]
      exact hbelow c hc hcn hpc
    · exact o.except c hc hcn hkc hci hpc

/-- `down`: when the element moved the order holds; when it did not, the slice is unchanged and the element
is below its children. -/
theorem down_spec (h : Slice α) {n k i : ℕ} (hk : k ≤ i) (o : DownOrder h n k i) :
    ((down h i n).2 = true → HeapFrom (down h i n).1 n k) ∧
      ((down h i n).2 = false → (down h i n).1 = h ∧ ∀ c, 0 < c → c < n → parent c = i → h.get i ≤ h.get c) := by
  obtain ⟨o', hbelow, hmoved⟩ := downLoop_spec h i n hk o
  simp only [down, decide_eq_true_eq, decide_eq_false_iff_not]
  rcases hmoved with ⟨hpos, hr⟩ | ⟨hlt, habove⟩
  · rw [hpos, hr] at hbelow
    rw [hpos, hr]
    exact ⟨fun h' => absurd h' (Nat.lt_irrefl _), fun _ => ⟨rfl, hbelow⟩⟩
  · exact ⟨fun _ => o'.heapFrom hbelow fun _ _ _ => habove, fun h' => absurd hlt h'⟩

/-- `down` from an element whose own pair with its parent is in order makes the order. -/
theorem down_heapFrom (h : Slice α) {n k i : ℕ} (hk : k ≤ i) (o : DownOrder h n k i)
    (habove : 0 < i → i < n → k ≤ parent i → h.get (parent i) ≤ h.get i) : HeapFrom (down h i n).1 n k := by
  have hspec := down_spec h hk o
  cases hm : (down h i n).2
  · obtain ⟨hr, hbelow⟩ := hspec.2 hm
    rw [hr]
    exact o.heapFrom hbelow habove
  · exact hspec.1 hm

/-- What `up` keeps for the element at `j`: every pair below `n` is in order but the element's with its
parent, and the children of `j` hold at least the parent of `j`. -/
structure UpOrder (h : Slice α) (n j : ℕ) : Prop where
  except : ∀ c, 0 < c → c < n → c ≠ j → h.get (parent c) ≤ h.get c
  grand : ∀ c, 0 < c → c < n → parent c = j → 0 < j → h.get (parent j) ≤ h.get c

/-- The swap with the parent moves the order up with the element. -/
theorem UpOrder.swap {h : Slice α} {n j : ℕ} (o : UpOrder h n j) (hj : j < n) (hne : parent j ≠ j)
    (hlt : h.get j < h.get (parent j)) : UpOrder (h.swap (parent j) j) n (parent j) := by
  have hj0 : 0 < j := by
    rcases Nat.eq_zero_or_pos j with rfl | hpos
    · exact absurd rfl hne
    · exact hpos
  have hpj := parent_lt hj0
  constructor
  · intro c hc hcn hcp
    by_cases hcj : c = j
    · subst hcj
      rw [Slice.swap_get_left, Slice.swap_get_right]
      exact le_of_lt hlt
    · by_cases hpcj : parent c = j
      · -- a child of `j` under the old parent of `j`
        rw [hpcj, Slice.swap_get_right, Slice.swap_get_of_ne _ hcp hcj]
        exact o.grand c hc hcn hpcj hj0
      · by_cases hpcp : parent c = parent j
        · -- the other child of the parent of `j`
          rw [hpcp, Slice.swap_get_left, Slice.swap_get_of_ne _ hcp hcj]
          have := o.except c hc hcn hcj
          rw [hpcp] at this
          exact (le_of_lt hlt).trans this
        · rw [Slice.swap_get_of_ne _ hpcp hpcj, Slice.swap_get_of_ne _ hcp hcj]
          exact o.except c hc hcn hcj
  · intro c hc hcn hpc hp0
    have hpp := parent_lt hp0
    -- the parent of `j` holds at least its own parent
    have hup : h.get (parent (parent j)) ≤ h.get (parent j) := o.except _ hp0 (by omega) (by omega)
    rw [Slice.swap_get_of_ne _ (by omega) (by omega)]
    by_cases hcj : c = j
    · subst hcj
      rw [Slice.swap_get_right]
      exact hup
    · have hcp : c ≠ parent j := by have := parent_lt hc; omega
      rw [Slice.swap_get_of_ne _ hcp hcj]
      have := o.except c hc hcn hcj
      rw [hpc] at this
      exact hup.trans this

/-- `up` makes the order below `n`. -/
theorem up_heapFrom (h : Slice α) (j : ℕ) {n : ℕ} (hj : j < n) (o : UpOrder h n j) : HeapFrom (up h j) n 0 := by
  fun_induction up h j with
  | case1 h j hstop =>
    intro c hc hcn _
    by_cases hcj : c = j
    · subst hcj
      rcases hstop with hpc | hge
      · exact absurd hpc (Nat.ne_of_lt (parent_lt hc))
      · exact le_of_not_lt' hge
    · exact o.except c hc hcn hcj
  | case2 h j hstop ih =>
    rw [not_or, not_not] at hstop
    have hp := parent_le j
    exact ih (by omega) (o.swap hj hstop.1 hstop.2)

/-! ### The operations keep a heap -/

theorem push_size (h : Slice α) (x : α) : (push h x).size = h.size + 1 :=
  up_size _ _

theorem push_perm (h : Slice α) (x : α) : (push h x).toList.Perm (h.toList ++ [x]) := by
  rw [← Slice.toList_push]
  exact up_perm _ _ (Nat.lt_succ_self _)

theorem push_isHeap {h : Slice α} (hh : h.IsHeap) (x : α) : (push h x).IsHeap := by
  unfold Slice.IsHeap
  rw [push_size]
  refine up_heapFrom _ _ (Nat.lt_succ_self _) ⟨fun c hc hcn hcs => ?_, fun c hc hcn hpc _ => ?_⟩
  · -- below the new element nothing changed
    have hc' : c < h.size := by omega
    have hp := parent_lt hc
    simp only [Slice.push, Function.update_of_ne (Nat.ne_of_lt hc'),
      Function.update_of_ne (show parent c ≠ h.size by omega)]
    exact hh c hc hc' (Nat.zero_le _)
  · -- the new element has no children
    unfold parent at hpc
    omega

theorem pop_size (h : Slice α) : (pop h).2.size = h.size - 1 := by
  show (downLoop (h.swap 0 (h.size - 1)) 0 (h.size - 1)).1.size - 1 = h.size - 1
  rw [downLoop_size, Slice.swap_size]

/-- The last element cut off a slice that is a heap before it. -/
theorem pop_of_heapFrom {r h : Slice α} (hsize : r.size = h.size) (hpos : 0 < h.size)
    (hheap : HeapFrom r (h.size - 1) 0) (hperm : r.toList.Perm h.toList) :
    r.pop.2.IsHeap ∧ (r.pop.2.toList ++ [r.pop.1]).Perm h.toList := by
  refine ⟨?_, ?_⟩
  · show HeapFrom r (r.size - 1) 0
    rwa [hsize]
  · rw [Slice.toList_pop _ (by omega)]
    exact hperm

theorem pop_spec {h : Slice α} (hh : h.IsHeap) (hpos : 0 < h.size) :
    (pop h).1 = h.get 0 ∧ (pop h).2.IsHeap ∧ ((pop h).2.toList ++ [(pop h).1]).Perm h.toList := by
  have hn : h.size - 1 < h.size := by omega
  -- every pair off the root is as in `h`
  have o : DownOrder (h.swap 0 (h.size - 1)) (h.size - 1) 0 0 := by
    refine ⟨fun c hc hcn _ hc0 hpc0 => ?_, fun _ _ _ _ h0 => absurd h0 (Nat.lt_irrefl 0)⟩
    have hp := parent_lt hc
    rw [Slice.swap_get_of_ne _ hpc0 (by omega), Slice.swap_get_of_ne _ hc0 (by omega)]
    exact hh c hc (by omega) (Nat.zero_le _)
  have hsize : (down (h.swap 0 (h.size - 1)) 0 (h.size - 1)).1.size = h.size := downLoop_size _ _ _
  refine ⟨?_, pop_of_heapFrom hsize hpos
    (down_heapFrom _ (Nat.le_refl 0) o fun h0 => absurd h0 (Nat.lt_irrefl 0))
    ((downLoop_perm _ _ _ (by simp)).trans (h.swap_perm hpos hn))⟩
  -- the root went to the end, which `down` leaves alone
  show (down (h.swap 0 (h.size - 1)) 0 (h.size - 1)).1.get
    ((down (h.swap 0 (h.size - 1)) 0 (h.size - 1)).1.size - 1) = h.get 0
  rw [hsize, down, downLoop_get_of_le _ _ _ (Nat.le_refl _), Slice.swap_get_right]

/-- `Pop` leaves a heap, also of an empty slice, where it leaves an empty one. -/
theorem pop_isHeap {h : Slice α} (hh : h.IsHeap) : (pop h).2.IsHeap := by
  rcases Nat.eq_zero_or_pos h.size with h0 | hpos
  · intro c hc hcn _
    rw [pop_size, h0] at hcn
    omega
  · exact (pop_spec hh hpos).2.1

theorem remove_spec {h : Slice α} (hh : h.IsHeap) {i : ℕ} (hi : i < h.size) :
    (remove h i).1 = h.get i ∧ (remove h i).2.IsHeap ∧ ((remove h i).2.toList ++ [(remove h i).1]).Perm h.toList := by
  have hpos : 0 < h.size := by omega
  unfold remove
  dsimp only
  split
  · rename_i hne
    have hin : i < h.size - 1 := by omega
    have hn : h.size - 1 < h.size := by omega
    -- the last element in place of `i`: every pair off `i` is as in `h`
    have hkeep : ∀ c, 0 < c → c < h.size - 1 → c ≠ i → parent c ≠ i →
        (h.swap i (h.size - 1)).get (parent c) ≤ (h.swap i (h.size - 1)).get c := by
      intro c hc hcn hci hpci
      have hp := parent_lt hc
      rw [Slice.swap_get_of_ne _ hpci (by omega), Slice.swap_get_of_ne _ hci (by omega)]
      exact hh c hc (by omega) (Nat.zero_le _)
    have hgrand : ∀ c, 0 < c → c < h.size - 1 → parent c = i → 0 < i →
        (h.swap i (h.size - 1)).get (parent i) ≤ (h.swap i (h.size - 1)).get c := by
      intro c hc hcn hpc hi0
      have hp := parent_lt hi0
      have hci := parent_lt hc
      rw [Slice.swap_get_of_ne _ (by omega) (by omega), Slice.swap_get_of_ne _ (by omega) (by omega)]
      have := hh c hc (by omega) (Nat.zero_le _)
      rw [hpc] at this
      exact (hh i hi0 hi (Nat.zero_le _)).trans this
    have o : DownOrder (h.swap i (h.size - 1)) (h.size - 1) 0 i :=
      ⟨fun c hc hcn _ hci hpci => hkeep c hc hcn hci hpci, fun c hc hcn hpc hi0 _ => hgrand c hc hcn hpc hi0⟩
    have hspec := down_spec _ (Nat.zero_le i) o
    have hswap := h.swap_perm hi hn
    cases hm : (down (h.swap i (h.size - 1)) i (h.size - 1)).2
    · -- the element stayed: it moves up instead
      obtain ⟨hr, hbelow⟩ := hspec.2 hm
      simp only [Bool.not_false, ↓reduceIte, hr]
      have ho : UpOrder (h.swap i (h.size - 1)) (h.size - 1) i := by
        refine ⟨fun c hc hcn hci => ?_, fun c hc hcn hpc hi0 => hgrand c hc hcn hpc hi0⟩
        by_cases hpci : parent c = i
        · rw [hpci]
          exact hbelow c hc hcn hpci
        · exact hkeep c hc hcn hci hpci
      have hsize : (up (h.swap i (h.size - 1)) i).size = h.size := up_size _ _
      refine ⟨?_, pop_of_heapFrom hsize hpos (up_heapFrom _ _ hin ho) ((up_perm (h.swap i (h.size - 1)) i hi).trans hswap)⟩
      show (up (h.swap i (h.size - 1)) i).get ((up (h.swap i (h.size - 1)) i).size - 1) = h.get i
      rw [hsize, up_get_of_lt _ _ hin, Slice.swap_get_right]
    · -- the element moved down
      simp only [Bool.not_true, Bool.false_eq_true, ↓reduceIte]
      have hsize : (down (h.swap i (h.size - 1)) i (h.size - 1)).1.size = h.size := downLoop_size _ _ _
      refine ⟨?_, pop_of_heapFrom hsize hpos (hspec.1 hm) ((downLoop_perm _ _ _ (by simp)).trans hswap)⟩
      show (down (h.swap i (h.size - 1)) i (h.size - 1)).1.get
        ((down (h.swap i (h.size - 1)) i (h.size - 1)).1.size - 1) = h.get i
      rw [hsize, down, downLoop_get_of_le _ _ _ (Nat.le_refl _), Slice.swap_get_right]
  · -- the last element itself
    rename_i heq
    rw [not_not] at heq
    refine ⟨by rw [← heq]; rfl, pop_of_heapFrom rfl hpos (fun c hc hcn _ => hh c hc (by omega) (Nat.zero_le _))
      (List.Perm.refl _)⟩

theorem initLoop_size (n : ℕ) : ∀ (h : Slice α) (k : ℕ), (initLoop n h k).size = h.size
  | _, 0 => rfl
  | h, k + 1 => (initLoop_size n _ k).trans (downLoop_size h k n)

theorem initLoop_perm {n : ℕ} : ∀ (h : Slice α) (k : ℕ), n ≤ h.size → (initLoop n h k).toList.Perm h.toList
  | _, 0, _ => List.Perm.refl _
  | h, k + 1, hn =>
    (initLoop_perm _ k (by rw [down, downLoop_size]; exact hn)).trans (downLoop_perm h k n hn)

/-- Each `down` of `Init` extends the order to one more parent. -/
theorem initLoop_heapFrom (n : ℕ) : ∀ (h : Slice α) (k : ℕ), HeapFrom h n k → HeapFrom (initLoop n h k) n 0
  | _, 0, hh => hh
  | h, k + 1, hh => by
    apply initLoop_heapFrom n _ k
    -- the parent of `k` is below `k`, outside the scope
    have hout : 0 < k → ¬ k ≤ parent k := fun hk0 hkp => absurd hkp (by have := parent_lt hk0; omega)
    refine down_heapFrom h (Nat.le_refl k) ⟨fun c hc hcn hkc _ hpck => hh c hc hcn (by omega), ?_⟩ ?_
    · exact fun _ _ _ _ hk0 hkp => absurd hkp (hout hk0)
    · exact fun hk0 _ hkp => absurd hkp (hout hk0)

theorem init_isHeap (h : Slice α) : (init h).IsHeap := by
  unfold Slice.IsHeap init
  rw [initLoop_size]
  apply initLoop_heapFrom
  -- no position has a parent in the second half
  intro c hc hcn hkc
  unfold parent at hkc
  omega

theorem init_perm (h : Slice α) : (init h).toList.Perm h.toList :=
  initLoop_perm h _ (Nat.le_refl _)

end BinaryHeap
