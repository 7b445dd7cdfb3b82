import Mathlib.Data.Option.Basic
import Mathlib.Data.List.Basic

/-!
# Undo logs

A log of entries, each of which knows how to undo itself against a state, possibly failing.  Undoing a log
undoes its entries the last one first (`undoAll`); undoing `l₁ ++ l₂` undoes `l₂` and then `l₁`
(`undoAll_append`).

The rule that carries a log's correctness: a state `v` from which the log undoes to `v₀` (`Restores`) keeps that
property when a step appends entries `F` that undo the step itself (`Restores.append`), or entries that leave
the state alone (`undoAll_of_forall`).  A fact about a view of the state transfers from the view's own undo to
the undo of the full state when each undo of the state is seen in the view as the view's undo
(`undoAll_view`), and a relation every undo keeps holds across the whole undo (`undoAll_rel`).
-/

namespace UndoLog

variable {ε σ V : Type*}

/-- Undo the entries of `log` against `s`, the last entry first; an undo that fails stops it. -/
def undoAll (undo : ε → σ → Option σ) (log : List ε) (s : σ) : Option σ :=
  log.foldr (fun e acc => acc.bind (undo e)) (some s)

variable {undo : ε → σ → Option σ}

@[simp] theorem undoAll_nil (s : σ) : undoAll undo [] s = some s := rfl

theorem undoAll_cons (e : ε) (log : List ε) (s : σ) :
    undoAll undo (e :: log) s = (undoAll undo log s).bind (undo e) := rfl

@[simp] theorem undoAll_singleton (e : ε) (s : σ) : undoAll undo [e] s = undo e s := rfl

/-- Starting the fold from an optional state is binding it. -/
theorem foldr_bind (log : List ε) (x : Option σ) :
    log.foldr (fun e acc => acc.bind (undo e)) x =
      x.bind fun s => log.foldr (fun e acc => acc.bind (undo e)) (some s) := by
  induction log with
  | nil => cases x <;> rfl
  | cons e log ih =>
    simp only [List.foldr_cons, ih]
    cases x <;> rfl

theorem undoAll_append (l₁ l₂ : List ε) (s : σ) :
    undoAll undo (l₁ ++ l₂) s = (undoAll undo l₂ s).bind (undoAll undo l₁) := by
  unfold undoAll
  rw [List.foldr_append, foldr_bind]

/-- Entries that leave the state alone undo to it. -/
theorem undoAll_of_forall {F : List ε} {s : σ} (hF : ∀ e ∈ F, undo e s = some s) :
    undoAll undo F s = some s := by
  induction F with
  | nil => rfl
  | cons e F ih =>
    rw [undoAll_cons, ih fun e he => hF e (List.mem_cons_of_mem _ he), Option.bind_some]
    exact hF e List.mem_cons_self

/-- The log undoes `s` to `s₀`. -/
def Restores (undo : ε → σ → Option σ) (log : List ε) (s s₀ : σ) : Prop :=
  undoAll undo log s = some s₀

theorem restores_nil (s : σ) : Restores undo [] s s := rfl

/-- A step from `s` to `s'` that appends entries undoing it keeps the log's restoration. -/
theorem Restores.append {log F : List ε} {s s' s₀ : σ} (h : Restores undo log s s₀)
    (hF : undoAll undo F s' = some s) : Restores undo (log ++ F) s' s₀ := by
  unfold Restores
  rw [undoAll_append, hF, Option.bind_some]
  exact h

/-- A view `view` of the state, with an undo `undoV` of its own that each undo of the state follows. -/
theorem undoAll_view {undoV : ε → V → Option V} (view : σ → V)
    (hstep : ∀ e s s', undo e s = some s' → undoV e (view s) = some (view s')) :
    ∀ {log : List ε} {s s' : σ}, undoAll undo log s = some s' → undoAll undoV log (view s) = some (view s')
  | [], s, s', h => by
    cases h
    rfl
  | e :: log, s, s', h => by
    rw [undoAll_cons, Option.bind_eq_some_iff] at h
    obtain ⟨t, ht, he⟩ := h
    rw [undoAll_cons, undoAll_view view hstep ht, Option.bind_some]
    exact hstep e t s' he

/-- A reflexive and transitive relation that every undo step keeps holds between the state a log is undone
from and the state it is undone to. -/
theorem undoAll_rel (R : σ → σ → Prop) (hrefl : ∀ s, R s s) (htrans : ∀ a b c, R a b → R b c → R a c)
    (hstep : ∀ e s s', undo e s = some s' → R s s') :
    ∀ {log : List ε} {s s' : σ}, undoAll undo log s = some s' → R s s'
  | [], s, s', h => by
    cases h
    exact hrefl s
  | e :: log, s, s', h => by
    rw [undoAll_cons, Option.bind_eq_some_iff] at h
    obtain ⟨t, ht, he⟩ := h
    exact htrans s t s' (undoAll_rel R hrefl htrans hstep ht) (hstep e t s' he)

end UndoLog
