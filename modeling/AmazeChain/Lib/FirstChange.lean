import Mathlib.Data.Nat.Init
import Mathlib.Order.Basic

/-!
# Values read back from their changes

A store that keeps the latest value of a key, and for each change of it the value the key had before, under
the time of the change, reads the key as of a time `t` from the first change recorded at or after `t`: the
value kept before that change, or the latest value when there is no such change or it holds no value for
the key (`readAsOf`).  If every change of the key's value over time `f` in `(lo, hi]` is recorded, and each
recorded time `c` holds `f (c - 1)`, the read as of any `t` from `lo + 1` to `hi + 1` is `f (t - 1)`
(`readAsOf_eq`): `f` does not change over a stretch of time with no recorded change (`eq_of_unrecorded`).
-/

namespace FirstChange

variable {α : Type*}

/-- The least of the times `S` at or after `t`. -/
def firstAtOrAfter (S : List ℕ) (t : ℕ) : Option ℕ := (S.filter (t ≤ ·)).min?

theorem firstAtOrAfter_eq_some_iff {S : List ℕ} {t c : ℕ} :
    firstAtOrAfter S t = some c ↔ c ∈ S ∧ t ≤ c ∧ ∀ c' ∈ S, t ≤ c' → c ≤ c' := by
  simp only [firstAtOrAfter, List.min?_eq_some_iff, List.mem_filter, decide_eq_true_eq, and_imp]
  constructor
  · rintro ⟨⟨hc, htc⟩, hleast⟩
    exact ⟨hc, htc, hleast⟩
  · rintro ⟨hc, htc, hleast⟩
    exact ⟨⟨hc, htc⟩, hleast⟩

theorem firstAtOrAfter_eq_none_iff {S : List ℕ} {t : ℕ} : firstAtOrAfter S t = none ↔ ∀ c ∈ S, c < t := by
  simp [firstAtOrAfter, List.filter_eq_nil_iff]

/-- A time recorded at `t` is the first one at or after `t`. -/
theorem firstAtOrAfter_of_mem {S : List ℕ} {t : ℕ} (h : t ∈ S) : firstAtOrAfter S t = some t :=
  firstAtOrAfter_eq_some_iff.2 ⟨h, Nat.le_refl t, fun _ _ htc => htc⟩

/-- The read as of `t`: the value kept before the first change at or after `t`, and the latest value when
there is none or it keeps nothing. -/
def readAsOf {β : Type*} (before : ℕ → Option β) (latest : β) (S : List ℕ) (t : ℕ) : β :=
  match firstAtOrAfter S t with
  | some c =>
    match before c with
    | some v => v
    | none => latest
  | none => latest

/-- Every change of `f` in `(lo, hi]` is at a time of `S`. -/
def ChangesIn (f : ℕ → α) (S : List ℕ) (lo hi : ℕ) : Prop :=
  ∀ c, lo < c → c ≤ hi → f c ≠ f (c - 1) → c ∈ S

/-- Over a stretch `(b, c]` of `(lo, hi]` with no time of `S`, `f` does not change. -/
theorem eq_of_unrecorded {f : ℕ → α} {S : List ℕ} {lo hi : ℕ} (hrec : ChangesIn f S lo hi) {b c : ℕ}
    (hb : lo ≤ b) (hbc : b ≤ c) (hc : c ≤ hi) (hnone : ∀ c' ∈ S, b < c' → c' ≤ c → False) :
    f c = f b := by
  induction c, hbc using Nat.le_induction with
  | base => rfl
  | succ c hbc ih =>
    have hprev : f c = f b := ih (by omega) fun c' hc' h1 h2 => hnone c' hc' h1 (by omega)
    by_contra hne
    have hchange : f (c + 1) ≠ f (c + 1 - 1) := by
      rw [Nat.add_sub_cancel, hprev]
      exact hne
    exact hnone (c + 1) (hrec (c + 1) (by omega) hc hchange) (by omega) (Nat.le_refl _)

/-- If the changes of `f` in `(lo, hi]` are recorded, each with the value before it, and the latest value is
`f hi`, the read as of any `t` from `lo + 1` to `hi + 1` is the value at `t - 1`. -/
theorem readAsOf_eq {f : ℕ → α} {S : List ℕ} {lo hi : ℕ} (hrec : ChangesIn f S lo hi)
    {before : ℕ → Option α} (hbefore : ∀ c ∈ S, lo < c ∧ c ≤ hi ∧ before c = some (f (c - 1))) {t : ℕ}
    (hlo : lo < t) (hhi : t ≤ hi + 1) : readAsOf before (f hi) S t = f (t - 1) := by
  unfold readAsOf
  cases hfirst : firstAtOrAfter S t with
  | none =>
    -- nothing changes from `t` on, so the latest value is the one before `t`
    have hnone := firstAtOrAfter_eq_none_iff.1 hfirst
    exact eq_of_unrecorded hrec (by omega) (by omega) (Nat.le_refl hi) fun c' hc' h1 _ => by
      have := hnone c' hc'
      omega
  | some c =>
    obtain ⟨hc, htc, hleast⟩ := firstAtOrAfter_eq_some_iff.1 hfirst
    obtain ⟨hloc, hchi, hb⟩ := hbefore c hc
    simp only [hb]
    -- nothing changes from `t` to `c - 1`, so the value before `c` is the one before `t`
    exact eq_of_unrecorded hrec (by omega) (by omega) (by omega) fun c' hc' h1 h2 => by
      have := hleast c' hc' (by omega)
      omega

end FirstChange
