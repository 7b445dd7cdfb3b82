import Mathlib.Order.RelClasses
import Mathlib.Data.Prod.Basic
import Mathlib.Data.List.TakeWhile

/-!
# Sorted lists

A list increasing under a strict total order `r` holds each element once, in order: the entries of a sorted
table.  `insert` puts an element in its place and keeps one copy of it (`mem_insert`, `pairwise_insert`);
`lowerBound a` is the first element not below `a`, which on a sorted list is the least element at or above `a`
(`lowerBound_eq_some_iff`).  On a sorted list, `takeWhile` of a predicate closed downwards and `dropWhile` of the
negation of one closed upwards are filters (`takeWhile_eq_filter`, `dropWhile_not_eq_filter`): a scan from the
start, or from a position found by a seek, visits exactly the elements of a range.

The lexicographic order of two strict total orders is one, so pairs of keys and values sort as a table of
duplicates does.
-/

namespace SortedList

variable {α : Type}

section Insert

variable (r : α → α → Prop) [DecidableRel r] [DecidableEq α]

/-- Insertion into a list increasing under `r`; an element already there is not added again. -/
def insert (a : α) : List α → List α
  | [] => [a]
  | b :: l => if r a b then a :: b :: l else if a = b then b :: l else b :: insert a l

variable {r}

theorem mem_insert {a x : α} {l : List α} : x ∈ insert r a l ↔ x = a ∨ x ∈ l := by
  induction l with
  | nil => simp [insert]
  | cons b l ih =>
    unfold insert
    split
    · simp only [List.mem_cons]
    · split
      · rename_i hab
        subst hab
        simp only [List.mem_cons]
        rw [← or_assoc, or_self]
      · simp only [List.mem_cons, ih]
        exact or_left_comm

theorem mem_foldr_insert {x : α} {acc : List α} : ∀ {l : List α}, x ∈ l.foldr (insert r) acc ↔ x ∈ l ∨ x ∈ acc
  | [] => by simp
  | b :: l => by rw [List.foldr_cons, mem_insert, mem_foldr_insert, List.mem_cons, or_assoc]

end Insert

/-- The first element that is not below `a`. -/
def lowerBound (r : α → α → Prop) [DecidableRel r] (a : α) (l : List α) : Option α :=
  l.find? fun b => !decide (r b a)

section Scan

variable {r : α → α → Prop}

/-- On a sorted list the longest prefix satisfying a predicate closed downwards along it is its filter. -/
theorem takeWhile_eq_filter {p : α → Bool} :
    ∀ {l : List α}, l.Pairwise r → (∀ b ∈ l, ∀ c ∈ l, r b c → p c = true → p b = true) →
      l.takeWhile p = l.filter p
  | [], _, _ => rfl
  | b :: l, hl, hp => by
    rw [List.pairwise_cons] at hl
    cases hb : p b with
    | true =>
      rw [List.takeWhile_cons_of_pos hb, List.filter_cons_of_pos hb,
        takeWhile_eq_filter hl.2 fun b' hb' c hc => hp b' (List.mem_cons_of_mem _ hb') c (List.mem_cons_of_mem _ hc)]
    | false =>
      rw [List.takeWhile_cons_of_neg (by simp [hb]), List.filter_cons_of_neg (by simp [hb])]
      -- the rest is above `b`, so it fails as `b` does
      refine (List.filter_eq_nil_iff.2 fun c hc hpc => ?_).symm
      rw [hp b List.mem_cons_self c (List.mem_cons_of_mem _ hc) (hl.1 c hc) hpc] at hb
      cases hb

/-- On a sorted list, dropping the prefix that fails a predicate closed upwards along it leaves its filter. -/
theorem dropWhile_not_eq_filter {p : α → Bool} :
    ∀ {l : List α}, l.Pairwise r → (∀ b ∈ l, ∀ c ∈ l, r b c → p b = true → p c = true) →
      l.dropWhile (fun b => !p b) = l.filter p
  | [], _, _ => rfl
  | b :: l, hl, hp => by
    rw [List.pairwise_cons] at hl
    cases hb : p b with
    | true =>
      rw [List.dropWhile_cons_of_neg (by simp [hb]), List.filter_cons_of_pos hb]
      -- the rest is above `b`, so it holds as at `b`
      rw [List.filter_eq_self.2 fun c hc => hp b List.mem_cons_self c (List.mem_cons_of_mem _ hc) (hl.1 c hc) hb]
    | false =>
      rw [List.dropWhile_cons_of_pos (by simp [hb]), List.filter_cons_of_neg (by simp [hb]),
        dropWhile_not_eq_filter hl.2 fun b' hb' c hc => hp b' (List.mem_cons_of_mem _ hb') c (List.mem_cons_of_mem _ hc)]

end Scan

theorem lowerBound_append {r : α → α → Prop} [DecidableRel r] (a : α) (l₁ l₂ : List α) :
    lowerBound r a (l₁ ++ l₂) = (lowerBound r a l₁).or (lowerBound r a l₂) :=
  List.find?_append

theorem lowerBound_eq_none_iff {r : α → α → Prop} [DecidableRel r] {a : α} {l : List α} :
    lowerBound r a l = none ↔ ∀ b ∈ l, r b a := by
  simp [lowerBound, List.find?_eq_none]

variable {r : α → α → Prop} [IsStrictTotalOrder α r]

theorem pairwise_insert [DecidableRel r] [DecidableEq α] (a : α) {l : List α} (hl : l.Pairwise r) :
    (insert r a l).Pairwise r := by
  induction l with
  | nil => simp [insert]
  | cons b l ih =>
    rw [List.pairwise_cons] at hl
    unfold insert
    split
    · rename_i hab
      refine List.Pairwise.cons (fun c hc => ?_) (List.Pairwise.cons hl.1 hl.2)
      rcases List.mem_cons.1 hc with rfl | hc
      · exact hab
      · exact trans_of r hab (hl.1 c hc)
    · split
      · exact List.Pairwise.cons hl.1 hl.2
      · rename_i hab hne
        -- `a` goes after `b`: trichotomy puts it above
        have hba : r b a := (trichotomous_of r a b).resolve_left hab |>.resolve_left hne
        refine List.Pairwise.cons (fun c hc => ?_) (ih hl.2)
        rcases mem_insert.1 hc with rfl | hc
        · exact hba
        · exact hl.1 c hc

theorem pairwise_foldr_insert [DecidableRel r] [DecidableEq α] {acc : List α} (hacc : acc.Pairwise r) :
    ∀ l : List α, (l.foldr (insert r) acc).Pairwise r
  | [] => hacc
  | b :: l => pairwise_insert b (pairwise_foldr_insert hacc l)

variable [DecidableRel r]

/-- On a sorted list the first element not below `a` sits just past the elements below it. -/
theorem lowerBound_eq_getElem? {a : α} {l : List α} (hl : l.Pairwise r) :
    lowerBound r a l = l[(l.filter fun b => decide (r b a)).length]? := by
  have htake : l.takeWhile (fun b => decide (r b a)) = l.filter fun b => decide (r b a) :=
    takeWhile_eq_filter hl fun b _ c _ hbc hca => by
      simp only [decide_eq_true_eq] at hca ⊢
      exact trans_of r hbc hca
  -- the list is the elements below `a` followed by the rest, whose head is the one found
  have hsplit : ∀ s t : List α, (s ++ t)[s.length]? = t.head? := fun s t => by
    rw [List.getElem?_append_right (Nat.le_refl _), Nat.sub_self, List.head?_eq_getElem?]
  have hget := hsplit (l.takeWhile fun b => decide (r b a)) (l.dropWhile fun b => decide (r b a))
  rw [List.takeWhile_append_dropWhile, htake] at hget
  rw [hget, lowerBound, List.find?_eq_head?_dropWhile_not]
  simp only [Bool.not_not]

/-- What `lowerBound` finds is at or above `a`, and everything below it is below `a`. -/
theorem lowerBound_spec {a b : α} {l : List α} (hl : l.Pairwise r) (h : lowerBound r a l = some b) :
    b ∈ l ∧ ¬ r b a ∧ ∀ c ∈ l, r c b → r c a := by
  obtain ⟨hb, as, bs, rfl, has⟩ := List.find?_eq_some_iff_append.1 h
  simp only [Bool.not_eq_true', decide_eq_false_iff_not, Bool.not_not, decide_eq_true_eq] at hb has
  refine ⟨by simp, hb, fun c hc hcb => ?_⟩
  rcases List.mem_append.1 hc with hc | hc
  · exact has c hc
  · -- past the prefix the list is above `b`
    have hbs : ∀ d ∈ bs, r b d := (List.pairwise_cons.1 (List.pairwise_append.1 hl).2.1).1
    rcases List.mem_cons.1 hc with rfl | hc
    · exact absurd hcb (irrefl c)
    · exact absurd (trans_of r hcb (hbs c hc)) (irrefl c)

/-- On a sorted list `lowerBound` finds the least element at or above `a`. -/
theorem lowerBound_eq_some_iff {a b : α} {l : List α} (hl : l.Pairwise r) :
    lowerBound r a l = some b ↔ b ∈ l ∧ ¬ r b a ∧ ∀ c ∈ l, r c b → r c a := by
  refine ⟨lowerBound_spec hl, fun ⟨hb, hba, hleast⟩ => ?_⟩
  cases h : lowerBound r a l with
  | none => exact absurd (lowerBound_eq_none_iff.1 h b hb) hba
  | some b' =>
    obtain ⟨hb', hb'a, hleast'⟩ := lowerBound_spec hl h
    -- two least elements at or above `a` are one
    rcases trichotomous_of r b' b with hlt | heq | hgt
    · exact absurd (hleast b' hb' hlt) hb'a
    · rw [heq]
    · exact absurd (hleast' b hb hgt) hba

theorem lowerBound_of_mem {a : α} {l : List α} (hl : l.Pairwise r) (ha : a ∈ l) : lowerBound r a l = some a :=
  (lowerBound_eq_some_iff hl).2 ⟨ha, irrefl a, fun _ _ h => h⟩

end SortedList

instance isStrictTotalOrder_prodLex {α β : Type} {r : α → α → Prop} {s : β → β → Prop} [IsStrictTotalOrder α r]
    [IsStrictTotalOrder β s] :
    IsStrictTotalOrder (α × β) (Prod.Lex r s) where
