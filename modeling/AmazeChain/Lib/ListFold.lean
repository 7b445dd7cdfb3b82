import Mathlib.Data.List.Count

/-!
# Folds that act at one element

A loop over the keys of a map whose body changes nothing at every key but one: the fold over a list that
holds that key once is the body at that key (`foldl_eq_of_count_one`), as long as the states the loop
passes through keep a property under which the other keys are left alone.  With no such key at all the
fold changes nothing (`foldl_eq_self`), a fold whose every step keeps a projection of the state keeps it
(`foldl_proj`), and one whose every step is related to the state before it by a preorder ends related to its
start (`foldl_rel`); a fold whose steps at the other keys keep a projection moves it as the step at the key does
(`foldl_proj_of_count_one`).
-/

namespace ListFold

variable {α β : Type*}

/-- A fold whose step leaves every state satisfying `Q` alone is the identity on such states. -/
theorem foldl_eq_self {f : β → α → β} (Q : β → Prop) {l : List α} (hid : ∀ y b, b ∈ l → Q y → f y b = y)
    {y : β} (hy : Q y) : l.foldl f y = y := by
  induction l with
  | nil => rfl
  | cons b l ih =>
    rw [List.foldl_cons, hid y b List.mem_cons_self hy]
    exact ih fun y b hb => hid y b (List.mem_cons_of_mem _ hb)

/-- A fold whose every step keeps a projection of the state keeps it. -/
theorem foldl_proj {γ : Type*} {f : β → α → β} (p : β → γ) {l : List α} (hstep : ∀ y b, b ∈ l → p (f y b) = p y)
    (y : β) : p (l.foldl f y) = p y := by
  induction l generalizing y with
  | nil => rfl
  | cons b l ih =>
    rw [List.foldl_cons, ih (fun z c hc => hstep z c (List.mem_cons_of_mem _ hc)), hstep y b List.mem_cons_self]

/-- A fold whose every step is related to the state before it by a reflexive and transitive relation ends
related to the state it started from. -/
theorem foldl_rel {f : β → α → β} (R : β → β → Prop) (hrefl : ∀ y, R y y)
    (htrans : ∀ y₁ y₂ y₃, R y₁ y₂ → R y₂ y₃ → R y₁ y₃) {l : List α} (hstep : ∀ y b, b ∈ l → R y (f y b))
    (y : β) : R y (l.foldl f y) := by
  induction l generalizing y with
  | nil => exact hrefl y
  | cons b l ih =>
    rw [List.foldl_cons]
    exact htrans _ _ _ (hstep y b List.mem_cons_self) (ih (fun z c hc => hstep z c (List.mem_cons_of_mem _ hc)) _)

variable [DecidableEq α]

/-- A fold whose step changes only the element `a`, over a list holding `a` once: the step at `a`.  `Q`
holds of the states before and after that step, and under it the other steps change nothing. -/
theorem foldl_eq_of_count_one {f : β → α → β} (Q : β → Prop) {a : α}
    (hid : ∀ y b, b ≠ a → Q y → f y b = y) (hQ : ∀ y, Q y → Q (f y a)) :
    ∀ {l : List α} {y : β}, l.count a = 1 → Q y → l.foldl f y = f y a
  | [], _, hl, _ => by simp at hl
  | b :: l, y, hl, hy => by
    rw [List.foldl_cons]
    by_cases hb : b = a
    · -- the step at `a` comes first; `a` is not in the rest, so the rest changes nothing
      subst hb
      have hrest : l.count b = 0 := by simpa using hl
      refine foldl_eq_self Q (fun z c hc hz => hid z c ?_ hz) (hQ y hy)
      rintro rfl
      exact List.count_eq_zero.1 hrest hc
    · rw [hid y b hb hy]
      have hl' : l.count a = 1 := by
        rw [List.count_cons] at hl
        simpa [hb] using hl
      exact foldl_eq_of_count_one Q hid hQ hl' hy

/-- A fold over a list holding `a` once, whose steps at the other elements keep the projection `p` and whose
step at `a` moves it by `g`: the projection moves by `g`. -/
theorem foldl_proj_of_count_one {γ : Type*} {f : β → α → β} (p : β → γ) (g : γ → γ) {a : α}
    (hother : ∀ y b, b ≠ a → p (f y b) = p y) (hstep : ∀ y, p (f y a) = g (p y)) :
    ∀ {l : List α} (y : β), l.count a = 1 → p (l.foldl f y) = g (p y)
  | [], _, hl => by simp at hl
  | b :: l, y, hl => by
    rw [List.foldl_cons]
    by_cases hb : b = a
    · -- the step at `a` comes first, and the rest keeps the projection
      subst hb
      have hrest : l.count b = 0 := by simpa using hl
      rw [foldl_proj p (fun z c hc => hother z c fun h => List.count_eq_zero.1 hrest (h ▸ hc)), hstep]
    · have hl' : l.count a = 1 := by
        rw [List.count_cons] at hl
        simpa [hb] using hl
      rw [foldl_proj_of_count_one p g hother hstep _ hl', hother y b hb]

end ListFold
