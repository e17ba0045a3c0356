import Mathlib.Data.Fintype.Order
import Mathlib.Order.WellFounded
import Mathlib.Logic.Relation

/-!
Relations without cycles. Such a relation has a minimal element in every
nonempty finite set, and a relation whose steps are steps of an acyclic one under
an injective naming is acyclic itself.
-/

namespace Relational

open Relation

variable {α β : Type}

def Acyclic (r : α → α → Prop) : Prop := ∀ a, ¬TransGen r a a

theorem Acyclic.wellFounded [Finite α] {r : α → α → Prop} (h : Acyclic r) : WellFounded r := by
  have htrans : IsTrans α (TransGen r) := ⟨fun _ _ _ => TransGen.trans⟩
  have hirrefl : Std.Irrefl (TransGen r) := ⟨h⟩
  have hwf : WellFounded (TransGen r) := Finite.wellFounded_of_trans_of_irrefl _
  exact Subrelation.wf (fun hab => TransGen.single hab) hwf

/-- In a finite set an acyclic relation leaves some element without a predecessor. -/
theorem Acyclic.exists_minimal {r : α → α → Prop} (h : Acyclic r) (l : List α) {a : α}
    (ha : a ∈ l) : ∃ m ∈ l, ∀ b ∈ l, ¬r b m := by
  have hacyclic : Acyclic fun x y : { x // x ∈ l } => r x.1 y.1 := by
    intro x hx
    exact h x.1 (hx.lift Subtype.val fun _ _ hxy => hxy)
  have hfinite : Finite { x // x ∈ l } := List.finite_toSet l
  obtain ⟨m, -, hmin⟩ := hacyclic.wellFounded.has_min Set.univ ⟨⟨a, ha⟩, trivial⟩
  exact ⟨m.1, m.2, fun b hb => hmin ⟨b, hb⟩ trivial⟩

/-- Every path is the image of a path between names. -/
theorem exists_path_of_naming {r : α → α → Prop} {s : β → β → Prop} {f : β → Option α}
    (hinj : ∀ x y a, f x = some a → f y = some a → x = y)
    (hstep : ∀ a b, r a b → ∃ x y, f x = some a ∧ f y = some b ∧ s x y) {a b : α}
    (h : TransGen r a b) : ∃ x y, f x = some a ∧ f y = some b ∧ TransGen s x y := by
  induction h with
  | single hab =>
      obtain ⟨x, y, hx, hy, hxy⟩ := hstep _ _ hab
      exact ⟨x, y, hx, hy, .single hxy⟩
  | tail _ hbc ih =>
      obtain ⟨y', z, hy', hz, hyz⟩ := hstep _ _ hbc
      obtain ⟨x, y, hx, hy, hpath⟩ := ih
      have hsame := hinj _ _ _ hy hy'
      subst hsame
      exact ⟨x, z, hx, hz, hpath.tail hyz⟩

theorem Acyclic.of_naming {r : α → α → Prop} {s : β → β → Prop} {f : β → Option α}
    (h : Acyclic s) (hinj : ∀ x y a, f x = some a → f y = some a → x = y)
    (hstep : ∀ a b, r a b → ∃ x y, f x = some a ∧ f y = some b ∧ s x y) : Acyclic r := by
  intro a hcycle
  obtain ⟨x, y, hx, hy, hpath⟩ := exists_path_of_naming hinj hstep hcycle
  have hsame := hinj _ _ _ hx hy
  subst hsame
  exact h x hpath

end Relational
