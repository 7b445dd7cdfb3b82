import Mathlib.Data.Finmap

/-!
# Finite maps over a sliding window of positions

A finite map from positions (naturals) to values whose keys all lie in the window of the last `L` positions
up to `n`, that is in `(n - L, n]`.  Moving the window to `n` evicts the one position `n - L` that falls out
of it (`evict`), and a new value is then recorded at `n`.  The window survives a move forward, a longer
window, and a window one shorter if the position that newly falls out is evicted as well
(`InWindow.advance`, `InWindow.mono`, `InWindow.shrink`).  A value recorded at `k` is not touched by an
eviction at `n` while `k` is still inside the window of length `L` at `n` (`lookup_evict_of_lt`).

`HasValue` (some position holds a value) is the test the window is consulted with; `ValuesInjective` says no
value is held twice, which survives evictions and the recording of a value held nowhere.
-/

namespace SlidingWindow

variable {β : Type*}

/-- Evict the position `n - L` that leaves the window of length `L` when it moves to `n`; nothing leaves
while `n < L`. -/
def evict (n L : ℕ) (m : Finmap fun _ : ℕ => β) : Finmap fun _ : ℕ => β :=
  if L ≤ n then m.erase (n - L) else m

/-- Every key of `m` lies in the window `(n - L, n]`. -/
def InWindow (m : Finmap fun _ : ℕ => β) (n L : ℕ) : Prop :=
  ∀ k ∈ m, k ≤ n ∧ n < k + L

/-- Some position holds the value `v`. -/
def HasValue (m : Finmap fun _ : ℕ => β) (v : β) : Prop :=
  ∃ k, m.lookup k = some v

/-- No value is held at two positions. -/
def ValuesInjective (m : Finmap fun _ : ℕ => β) : Prop :=
  ∀ a b v, m.lookup a = some v → m.lookup b = some v → a = b

theorem hasValue_iff_keys {m : Finmap fun _ : ℕ => β} {v : β} :
    HasValue m v ↔ ∃ k ∈ m.keys, m.lookup k = some v :=
  ⟨fun ⟨k, hk⟩ => ⟨k, Finmap.mem_keys.2 (Finmap.mem_of_lookup_eq_some hk), hk⟩,
    fun ⟨k, _, hk⟩ => ⟨k, hk⟩⟩

instance [DecidableEq β] (m : Finmap fun _ : ℕ => β) (v : β) : Decidable (HasValue m v) :=
  decidable_of_iff _ hasValue_iff_keys.symm

/-! ### Eviction -/

theorem mem_evict {n L k : ℕ} {m : Finmap fun _ : ℕ => β} :
    k ∈ evict n L m ↔ k ∈ m ∧ ¬(L ≤ n ∧ k = n - L) := by
  unfold evict
  split
  · rename_i h
    simp [Finmap.mem_erase, h, and_comm]
  · rename_i h
    simp [h]

theorem lookup_evict_of_ne {n L k : ℕ} {m : Finmap fun _ : ℕ => β} (h : ¬(L ≤ n ∧ k = n - L)) :
    (evict n L m).lookup k = m.lookup k := by
  unfold evict
  split
  · rename_i hL
    exact Finmap.lookup_erase_ne fun hk => h ⟨hL, hk⟩
  · rfl

/-- A position still inside the window of length `L` at `n` survives the eviction at `n`. -/
theorem lookup_evict_of_lt {n L k : ℕ} {m : Finmap fun _ : ℕ => β} (h : n < k + L) :
    (evict n L m).lookup k = m.lookup k :=
  lookup_evict_of_ne fun ⟨_, hk⟩ => by omega

theorem hasValue_of_evict {n L : ℕ} {m : Finmap fun _ : ℕ => β} {v : β} (h : HasValue (evict n L m) v) :
    HasValue m v := by
  obtain ⟨k, hk⟩ := h
  have hne : ¬(L ≤ n ∧ k = n - L) := (mem_evict.1 (Finmap.mem_of_lookup_eq_some hk)).2
  exact ⟨k, by rw [← lookup_evict_of_ne hne]; exact hk⟩

/-! ### The window -/

theorem InWindow.mono {m : Finmap fun _ : ℕ => β} {n L L' : ℕ} (h : InWindow m n L) (hL : L ≤ L') :
    InWindow m n L' := fun k hk => ⟨(h k hk).1, by have := (h k hk).2; omega⟩

/-- Evicting at `n` brings every key `k ≤ n` with `n ≤ k + L` into the window of length `L`. -/
theorem inWindow_evict {m : Finmap fun _ : ℕ => β} {n L : ℕ} (h : ∀ k ∈ m, k ≤ n ∧ n < k + L + 1) :
    InWindow (evict n L m) n L := by
  intro k hk
  obtain ⟨hm, hne⟩ := mem_evict.1 hk
  obtain ⟨hkn, hlt⟩ := h k hm
  refine ⟨hkn, ?_⟩
  by_cases hL : L ≤ n
  · have : k ≠ n - L := fun e => hne ⟨hL, e⟩
    omega
  · omega

/-- A window one shorter, once the position that falls out of it is evicted. -/
theorem InWindow.shrink {m : Finmap fun _ : ℕ => β} {n L L' : ℕ} (h : InWindow m n L) (hL : L ≤ L' + 1) :
    InWindow (evict n L' m) n L' :=
  inWindow_evict fun k hk => ⟨(h k hk).1, by have := (h k hk).2; omega⟩

/-- Moving the window one position forward and recording a value at the new position. -/
theorem InWindow.advance {m : Finmap fun _ : ℕ => β} {n L : ℕ} (h : InWindow m n L) (hL : 0 < L) (v : β) :
    InWindow ((evict (n + 1) L m).insert (n + 1) v) (n + 1) L := by
  have hev : InWindow (evict (n + 1) L m) (n + 1) L :=
    inWindow_evict fun k hk => ⟨by have := (h k hk).1; omega, by have := (h k hk).2; omega⟩
  intro k hk
  rcases Finmap.mem_insert.1 hk with rfl | hk
  · omega
  · exact hev k hk

theorem notMem_of_inWindow {m : Finmap fun _ : ℕ => β} {n L : ℕ} (h : InWindow m n L) :
    n + 1 ∉ m := fun hk => by have := (h _ hk).1; omega

/-! ### Values held once -/

theorem ValuesInjective.erase {m : Finmap fun _ : ℕ => β} (h : ValuesInjective m) (k : ℕ) :
    ValuesInjective (m.erase k) := by
  intro a b v ha hb
  have ha' : a ≠ k := fun e => by subst e; simp at ha
  have hb' : b ≠ k := fun e => by subst e; simp at hb
  rw [Finmap.lookup_erase_ne ha'] at ha
  rw [Finmap.lookup_erase_ne hb'] at hb
  exact h a b v ha hb

theorem ValuesInjective.evict {m : Finmap fun _ : ℕ => β} (h : ValuesInjective m) (n L : ℕ) :
    ValuesInjective (evict n L m) := by
  unfold SlidingWindow.evict
  split
  · exact h.erase _
  · exact h

/-- Recording at a fresh position a value held nowhere keeps values held once. -/
theorem ValuesInjective.insert {m : Finmap fun _ : ℕ => β} (h : ValuesInjective m) {k : ℕ} {v : β}
    (hv : ¬HasValue m v) : ValuesInjective (m.insert k v) := by
  -- a position other than `k` holding `v` would contradict `hv`
  have old : ∀ a w, a ≠ k → (m.insert k v).lookup a = some w → m.lookup a = some w ∧ w ≠ v := by
    intro a w hak ha
    rw [Finmap.lookup_insert_of_ne _ hak] at ha
    exact ⟨ha, fun hw => hv ⟨a, hw ▸ ha⟩⟩
  intro a b w ha hb
  by_cases hak : a = k <;> by_cases hbk : b = k
  · rw [hak, hbk]
  · subst hak
    rw [Finmap.lookup_insert] at ha
    exact absurd (Option.some.inj ha).symm (old b w hbk hb).2
  · subst hbk
    rw [Finmap.lookup_insert] at hb
    exact absurd (Option.some.inj hb).symm (old a w hak ha).2
  · exact h a b w (old a w hak ha).1 (old b w hbk hb).1

end SlidingWindow
