import Mathlib.Data.List.Range

/-!
# Folds of fallible steps

A monadic left fold in `Except` succeeds when every step does, one after the other.  `bind_eq_ok`,
`foldlM_cons_eq_ok` and `foldlM_append_eq_ok` invert a successful bind or fold; `foldlM_inv` carries an
invariant through a successful fold, `foldlM_inv_range` an invariant indexed by a counter that each
element of the list advances by one (the elements carry the consecutive values `n + 1, n + 2, …`), and
`foldlM_prefix_inv` an invariant indexed by the prefix of the list folded so far.  A fold whose step decodes
its element first runs over the decoded values when every element decodes (`foldlM_bind_of_map_eq_ok`).
-/

namespace ExceptFold

universe u v

variable {ε : Type u} {α β : Type v}

/-! ### Evaluating `do` blocks in `Except` -/

@[simp] theorem throw_eq_error (e : ε) : (throw e : Except ε α) = .error e := rfl

@[simp] theorem pure_eq_ok (a : α) : (pure a : Except ε α) = .ok a := rfl

@[simp] theorem error_bind (e : ε) (f : α → Except ε β) : (Except.error e >>= f) = .error e := rfl

@[simp] theorem ok_bind (a : α) (f : α → Except ε β) : (Except.ok a >>= f) = f a := rfl

/-! ### Naming a success

A fallible result that evaluates to a success is named through these two, without unifying a variable
against its unfolded value. -/

/-- A result that is a success is one, and what holds of each of its successes holds of it. -/
theorem exists_ok_of_any_isOk {o : Option (Except ε α)} {P : α → Prop} (h : o.any Except.isOk = true)
    (hP : ∀ a, o = some (.ok a) → P a) : ∃ a, o = some (.ok a) ∧ P a := by
  rcases o with _ | (e | a)
  · simp at h
  · simp [Except.toBool] at h
  · exact ⟨a, rfl, hP a rfl⟩

/-- A result that is a success of a decidable property is one. -/
theorem exists_ok_of_any_decide {o : Option (Except ε α)} {P : α → Prop} [DecidablePred P]
    (h : o.any (fun e => e.toOption.any fun a => decide (P a)) = true) : ∃ a, o = some (.ok a) ∧ P a := by
  rcases o with _ | (e | a)
  · simp at h
  · simp [Except.toOption] at h
  · exact ⟨a, rfl, by simpa [Except.toOption] using h⟩

/-! ### Successful binds and folds -/

theorem bind_eq_ok {x : Except ε α} {f : α → Except ε β} {b : β} :
    x >>= f = .ok b ↔ ∃ a, x = .ok a ∧ f a = .ok b := by
  cases x with
  | error e => simp [bind, Except.bind]
  | ok a => simp [bind, Except.bind]

theorem foldlM_cons_eq_ok {f : β → α → Except ε β} {a : α} {l : List α} {b b' : β} :
    (a :: l).foldlM f b = .ok b' ↔ ∃ c, f b a = .ok c ∧ l.foldlM f c = .ok b' := by
  rw [List.foldlM_cons, bind_eq_ok]

theorem foldlM_append_eq_ok {f : β → α → Except ε β} {l₁ l₂ : List α} {b b' : β} :
    (l₁ ++ l₂).foldlM f b = .ok b' ↔ ∃ c, l₁.foldlM f b = .ok c ∧ l₂.foldlM f c = .ok b' := by
  rw [List.foldlM_append, bind_eq_ok]

/-- A property kept by every successful step holds after a successful fold. -/
theorem foldlM_inv {f : β → α → Except ε β} (P : β → Prop)
    (step : ∀ b a c, P b → f b a = .ok c → P c) :
    ∀ {l : List α} {b b' : β}, P b → l.foldlM f b = .ok b' → P b'
  | [], b, b', hb, h => by
    rw [List.foldlM_nil] at h
    cases h
    exact hb
  | a :: l, b, b', hb, h => by
    obtain ⟨c, hc, hl⟩ := foldlM_cons_eq_ok.1 h
    exact foldlM_inv P step (step b a c hb hc) hl

/-- An invariant indexed by a counter: the elements carry the values `n + 1, n + 2, …` under `idx`, and a
step on the element with value `n + 1` moves the invariant from `n` to `n + 1`. -/
theorem foldlM_inv_range {f : β → α → Except ε β} (idx : α → ℕ) (P : ℕ → β → Prop)
    (step : ∀ n b a c, P n b → idx a = n + 1 → f b a = .ok c → P (n + 1) c) :
    ∀ {l : List α} {n : ℕ} {b b' : β}, P n b → l.map idx = List.range' (n + 1) l.length →
      l.foldlM f b = .ok b' → P (n + l.length) b'
  | [], n, b, b', hb, _, h => by
    rw [List.foldlM_nil] at h
    cases h
    exact hb
  | a :: l, n, b, b', hb, hidx, h => by
    obtain ⟨c, hc, hl⟩ := foldlM_cons_eq_ok.1 h
    rw [List.map_cons, List.length_cons, List.range'_succ, List.cons.injEq] at hidx
    have := foldlM_inv_range idx P step (step n b a c hb hidx.1 hc) hidx.2 hl
    rwa [List.length_cons, ← Nat.add_assoc, Nat.add_right_comm]

/-- An invariant of the prefix folded so far: a step on the element that follows a prefix `l` of `L` moves it
from `l` to `l ++ [a]`. -/
theorem foldlM_prefix_inv {f : β → α → Except ε β} {L : List α} (P : List α → β → Prop)
    (step : ∀ l a b c, l ++ [a] <+: L → P l b → f b a = .ok c → P (l ++ [a]) c) {b b' : β}
    (hb : P [] b) (h : L.foldlM f b = .ok b') : P L b' := by
  -- the fold of the rest `r` of `L` after the prefix `l` already folded
  suffices ∀ r l b, l ++ r = L → P l b → r.foldlM f b = .ok b' → P L b' from this L [] b rfl hb h
  intro r
  induction r with
  | nil =>
    intro l b hl hb h
    rw [List.foldlM_nil] at h
    cases h
    rw [List.append_nil] at hl
    exact hl ▸ hb
  | cons a r ih =>
    intro l b hl hb h
    obtain ⟨c, hc, hr⟩ := foldlM_cons_eq_ok.1 h
    have hl' : l ++ [a] ++ r = L := by rw [List.append_assoc]; exact hl
    exact ih (l ++ [a]) c hl' (step l a b c ⟨r, hl'⟩ hb hc) hr

/-! ### Folds that decode each element -/

/-- Results that are all successes are the successes of a list of values. -/
theorem exists_eq_map_ok :
    ∀ {xs : List (Except ε α)}, (∀ x ∈ xs, ∃ a, x = .ok a) → ∃ as : List α, xs = as.map .ok
  | [], _ => ⟨[], rfl⟩
  | x :: xs, h => by
    obtain ⟨a, rfl⟩ := h x List.mem_cons_self
    obtain ⟨as, rfl⟩ := exists_eq_map_ok fun y hy => h y (List.mem_cons_of_mem _ hy)
    exact ⟨a :: as, rfl⟩

/-- A fold whose step first decodes its element is, when every element decodes, the fold over what they decode
to. -/
theorem foldlM_bind_of_map_eq_ok {γ : Type v} {dec : γ → Except ε α} {f : β → α → Except ε β} :
    ∀ {l : List γ} {as : List α}, l.map dec = as.map .ok →
      ∀ b, l.foldlM (fun b c => dec c >>= f b) b = as.foldlM f b
  | [], as, h, b => by
    obtain rfl : as = [] := List.map_eq_nil_iff.1 h.symm
    rfl
  | c :: l, a :: as, h, b => by
    rw [List.map_cons, List.map_cons, List.cons.injEq] at h
    rw [List.foldlM_cons, List.foldlM_cons, h.1, ok_bind]
    -- the rest of both folds, from the same state
    congr 1
    funext b'
    exact foldlM_bind_of_map_eq_ok h.2 b'
  | _ :: _, [], h, _ => by simp at h

end ExceptFold
