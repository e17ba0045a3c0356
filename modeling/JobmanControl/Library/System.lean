import Mathlib.Logic.Relation

/-!
Runs of a labelled step relation. `Reaches step allowed s t` says that `t` is
reached from `s` by steps that were each allowed in the state they were taken
from, so a condition on steps can be stated without naming the run.
-/

namespace Transition

variable {σ α : Type}

/-- Finitely many steps, each of them allowed where it is taken. -/
inductive Reaches (step : σ → α → σ → Prop) (allowed : σ → α → Prop) (s : σ) : σ → Prop
  | refl : Reaches step allowed s s
  | tail {t u : σ} (a : α) : Reaches step allowed s t → allowed t a → step t a u →
      Reaches step allowed s u

/-- Every state any run reaches. -/
abbrev Reachable (step : σ → α → σ → Prop) (s : σ) : σ → Prop :=
  Reaches step (fun _ _ => True) s

/-- The run a list of labels takes, when each of them is enabled. -/
def exec (next : σ → α → Option σ) : σ → List α → Option σ
  | s, [] => some s
  | s, a :: as => (next s a).bind fun t => exec next t as

namespace Reaches

variable {step : σ → α → σ → Prop} {allowed allowed' : σ → α → Prop} {s t u : σ}

/-- What holds at the start and is kept by every allowed step holds throughout. -/
theorem invariant {P : σ → Prop} (h : Reaches step allowed s t) (hs : P s)
    (hstep : ∀ s a t, P s → allowed s a → step s a t → P t) : P t := by
  induction h with
  | refl => exact hs
  | tail a _ hallow hlast ih => exact hstep _ a _ ih hallow hlast

theorem trans (hst : Reaches step allowed s t) (htu : Reaches step allowed t u) :
    Reaches step allowed s u := by
  induction htu with
  | refl => exact hst
  | tail a _ hallow hlast ih => exact .tail a ih hallow hlast

theorem mono (h : Reaches step allowed s t) (himp : ∀ s a, allowed s a → allowed' s a) :
    Reaches step allowed' s t := by
  induction h with
  | refl => exact .refl
  | tail a _ hallow hlast ih => exact .tail a ih (himp _ a hallow) hlast

/-- A transitive relation kept by every step relates the two ends of a run. -/
theorem relates {P : σ → Prop} {R : σ → σ → Prop} (h : Reaches step allowed s t) (hs : P s)
    (hstep : ∀ s a t, P s → allowed s a → step s a t → P t)
    (hrefl : ∀ s, R s s) (htrans : ∀ s t u, R s t → R t u → R s u)
    (hrel : ∀ s a t, P s → allowed s a → step s a t → R s t) : R s t := by
  induction h with
  | refl => exact hrefl s
  | tail a hrun hallow hlast ih =>
      exact htrans _ _ _ ih (hrel _ a _ (hrun.invariant hs hstep) hallow hlast)

end Reaches

theorem reaches_of_exec {next : σ → α → Option σ} {allowed : σ → α → Bool} {s t : σ} {as : List α}
    (h : exec (fun s a => if allowed s a then next s a else none) s as = some t) :
    Reaches (fun s a t => next s a = some t) (fun s a => allowed s a = true) s t := by
  induction as generalizing s with
  | nil =>
      cases h
      exact .refl
  | cons a as ih =>
      obtain ⟨u, hu, hrest⟩ := Option.bind_eq_some_iff.mp h
      rw [Option.ite_none_right_eq_some] at hu
      exact (Reaches.tail a .refl hu.1 hu.2).trans (ih hrest)

theorem reachable_of_exec {next : σ → α → Option σ} {s t : σ} {as : List α}
    (h : exec next s as = some t) : Reachable (fun s a t => next s a = some t) s t := by
  induction as generalizing s with
  | nil =>
      cases h
      exact .refl
  | cons a as ih =>
      obtain ⟨u, hu, hrest⟩ := Option.bind_eq_some_iff.mp h
      exact (Reaches.tail a .refl trivial hu).trans (ih hrest)

end Transition
