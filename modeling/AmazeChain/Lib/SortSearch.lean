import Mathlib.Order.Basic

/-!
# Binary search for the first index of a monotone test

Go's `sort.Search(n, f)`: halve the range `[i, j)` that the first index with `f` true lies in, starting from
`[0, n)`, until it is empty.  The loop runs at most `n` times, since every round shrinks the range, so it is
written here with that many rounds of fuel.  For a test that stays true once it is true (`Monotone f`), the
index returned is the least one below `n` at which `f` holds, or `n` when there is none (`search_spec`,
`search_eq_of`).  For any test it stops between an index that fails and one that holds (`search_bracket`).
-/

namespace SortSearch

/-- The loop of `sort.Search`: `h` is the middle of `[i, j)`, and the range keeps the half the first index
with `f` true lies in. -/
def searchLoop (f : ℕ → Bool) : ℕ → ℕ → ℕ → ℕ
  | 0, i, _ => i
  | fuel + 1, i, j =>
    if i < j then
      if !f ((i + j) / 2) then searchLoop f fuel ((i + j) / 2 + 1) j else searchLoop f fuel i ((i + j) / 2)
    else i

/-- `sort.Search(n, f)`. -/
def search (n : ℕ) (f : ℕ → Bool) : ℕ :=
  searchLoop f n 0 n

/-- The test stays true once it is true. -/
def Monotone (f : ℕ → Bool) : Prop :=
  ∀ k, f k = true → f (k + 1) = true

variable {f : ℕ → Bool}

theorem Monotone.le (hf : Monotone f) {k k' : ℕ} (hk : f k = true) (hle : k ≤ k') : f k' = true := by
  induction hle with
  | refl => exact hk
  | step _ ih => exact hf _ ih

/-- With fuel for the whole range, the loop keeps its invariant: every index below `i` fails, and `j` is
the end `n` or an index that holds; the range `[i, j)` shrinks to the index it returns. -/
theorem searchLoop_spec (hf : Monotone f) (n : ℕ) :
    ∀ (fuel i j : ℕ), j - i ≤ fuel → i ≤ j → (∀ k < i, f k = false) → (j = n ∨ f j = true) →
      i ≤ searchLoop f fuel i j ∧ searchLoop f fuel i j ≤ j ∧
        (∀ k < searchLoop f fuel i j, f k = false) ∧
        (searchLoop f fuel i j = n ∨ f (searchLoop f fuel i j) = true)
  | 0, i, j, hfuel, hij, hlow, hhigh => by
    have hj : j = i := by omega
    subst hj
    exact ⟨Nat.le_refl _, Nat.le_refl _, hlow, hhigh⟩
  | fuel + 1, i, j, hfuel, hij, hlow, hhigh => by
    simp only [searchLoop]
    split_ifs with hlt hmid
    · -- the middle fails, and so does every index below it
      have hbelow : ∀ k < (i + j) / 2 + 1, f k = false := by
        intro k hk
        cases hk' : f k with
        | false => rfl
        | true =>
          have := hf.le hk' (Nat.le_of_lt_succ hk)
          simp_all
      obtain ⟨h₁, h₂, h₃, h₄⟩ :=
        searchLoop_spec hf n fuel ((i + j) / 2 + 1) j (by omega) (by omega) hbelow hhigh
      exact ⟨by omega, h₂, h₃, h₄⟩
    · -- the middle holds, and becomes the end of the range
      have hmid' : f ((i + j) / 2) = true := by simpa using hmid
      obtain ⟨h₁, h₂, h₃, h₄⟩ :=
        searchLoop_spec hf n fuel i ((i + j) / 2) (by omega) (by omega) hlow (.inr hmid')
      exact ⟨h₁, by omega, h₃, h₄⟩
    · have hj : j = i := by omega
      subst hj
      exact ⟨Nat.le_refl _, Nat.le_refl _, hlow, hhigh⟩

theorem search_spec (hf : Monotone f) (n : ℕ) :
    search n f ≤ n ∧ (∀ k < search n f, f k = false) ∧ (search n f = n ∨ f (search n f) = true) := by
  obtain ⟨-, h₂, h₃, h₄⟩ := searchLoop_spec hf n n 0 n (by omega) (Nat.zero_le n) (by simp) (.inl rfl)
  exact ⟨h₂, h₃, h₄⟩

/-- Whatever the test, the loop stops between an index that fails and one that holds: the index before the
result fails (or the result is the start `0`), and the result holds (or is the end `n`). -/
theorem searchLoop_bracket (f : ℕ → Bool) (n : ℕ) :
    ∀ (fuel i j : ℕ), j - i ≤ fuel → i ≤ j → (i = 0 ∨ f (i - 1) = false) → (j = n ∨ f j = true) →
      searchLoop f fuel i j ≤ j ∧ (searchLoop f fuel i j = 0 ∨ f (searchLoop f fuel i j - 1) = false) ∧
        (searchLoop f fuel i j = n ∨ f (searchLoop f fuel i j) = true)
  | 0, i, j, hfuel, hij, hlow, hhigh => by
    have hj : j = i := by omega
    subst hj
    exact ⟨Nat.le_refl _, hlow, hhigh⟩
  | fuel + 1, i, j, hfuel, hij, hlow, hhigh => by
    simp only [searchLoop]
    split_ifs with hlt hmid
    · -- the middle fails and is the index before the new range
      have hmid' : f ((i + j) / 2 + 1 - 1) = false := by simpa using hmid
      exact searchLoop_bracket f n fuel ((i + j) / 2 + 1) j (by omega) (by omega) (.inr hmid') hhigh
    · have hmid' : f ((i + j) / 2) = true := by simpa using hmid
      obtain ⟨h₁, h₂, h₃⟩ := searchLoop_bracket f n fuel i ((i + j) / 2) (by omega) (by omega) hlow (.inr hmid')
      exact ⟨by omega, h₂, h₃⟩
    · have hj : j = i := by omega
      subst hj
      exact ⟨Nat.le_refl _, hlow, hhigh⟩

theorem search_bracket (n : ℕ) (f : ℕ → Bool) :
    search n f ≤ n ∧ (search n f = 0 ∨ f (search n f - 1) = false) ∧ (search n f = n ∨ f (search n f) = true) :=
  searchLoop_bracket f n n 0 n (by omega) (Nat.zero_le n) (.inl rfl) (.inl rfl)

/-- The index that `search` returns is the least one where `f` holds. -/
theorem search_eq_of (hf : Monotone f) {n k : ℕ} (hk : k < n) (hfk : f k = true)
    (hbelow : ∀ k' < k, f k' = false) : search n f = k := by
  obtain ⟨hle, hlow, hhigh⟩ := search_spec hf n
  rcases Nat.lt_trichotomy (search n f) k with hlt | heq | hgt
  · -- below `k` the test fails, so `search` cannot stop there
    rcases hhigh with hn | ht
    · omega
    · rw [hbelow _ hlt] at ht
      cases ht
  · exact heq
  · rw [hlow k hgt] at hfk
    cases hfk

end SortSearch
