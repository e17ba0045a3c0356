import Mathlib.Data.List.Sort
import Mathlib.Logic.Basic

/-!
Query clauses over lists of rows: the first row in an order, all rows in an
order, and conditions in SQL's logic of three values. A condition selects a row
only when it is true; both false and unknown leave the row out. The last section
says when the type of a parameter can be deduced from its uses.
-/

namespace Relational

variable {α β : Type}

/-- `ORDER BY … LIMIT 1`; the earlier of two equal rows wins. -/
def firstBy (le : α → α → Bool) : List α → Option α
  | [] => none
  | a :: as =>
      match firstBy le as with
      | none => some a
      | some b => if le a b then some a else some b

theorem firstBy_mem {le : α → α → Bool} {l : List α} {a : α}
    (h : firstBy le l = some a) : a ∈ l := by
  induction l generalizing a with
  | nil => cases h
  | cons x xs ih =>
      simp only [firstBy] at h
      cases hrest : firstBy le xs with
      | none =>
          simp only [hrest, Option.some.injEq] at h
          exact h ▸ List.mem_cons_self
      | some b =>
          simp only [hrest] at h
          split at h
          · cases h
            exact List.mem_cons_self
          · cases h
            exact List.mem_cons_of_mem _ (ih hrest)

theorem firstBy_eq_none_iff (le : α → α → Bool) (l : List α) :
    firstBy le l = none ↔ l = [] := by
  cases l with
  | nil => simp [firstBy]
  | cons x xs =>
      simp only [firstBy, reduceCtorEq, iff_false]
      cases firstBy le xs with
      | none => simp
      | some b =>
          simp only
          split <;> simp

theorem firstBy_le {le : α → α → Bool} (htotal : ∀ a b, le a b = true ∨ le b a = true)
    (htrans : ∀ a b c, le a b = true → le b c = true → le a c = true) {l : List α} {a b : α}
    (h : firstBy le l = some a) (hb : b ∈ l) : le a b = true := by
  have hrefl : ∀ x, le x x = true := fun x => (htotal x x).elim id id
  induction l generalizing a with
  | nil => cases h
  | cons x xs ih =>
      simp only [firstBy] at h
      cases hrest : firstBy le xs with
      | none =>
          simp only [hrest, Option.some.injEq] at h
          rw [(firstBy_eq_none_iff _ _).mp hrest] at hb
          rw [List.mem_singleton.mp hb, h]
          exact hrefl a
      | some y =>
          simp only [hrest] at h
          obtain rfl | hb := List.mem_cons.mp hb
          · split at h
            · cases h
              exact hrefl b
            · rename_i hxy
              cases h
              exact (htotal _ _).resolve_left hxy
          · have hy := ih hrest hb
            split at h
            · rename_i hxy
              cases h
              exact htrans _ _ _ hxy hy
            · cases h
              exact hy

/-- `ORDER BY`, as a stable sort. -/
def orderBy (le : α → α → Bool) (l : List α) : List α :=
  l.insertionSort fun a b => le a b = true

theorem mem_orderBy (le : α → α → Bool) (l : List α) (a : α) :
    a ∈ orderBy le l ↔ a ∈ l :=
  (List.perm_insertionSort _ l).mem_iff

theorem nodup_map_orderBy (le : α → α → Bool) (l : List α) (f : α → β) :
    ((orderBy le l).map f).Nodup ↔ (l.map f).Nodup :=
  ((List.perm_insertionSort _ l).map f).nodup_iff

theorem sorted_orderBy {κ : Type} [LinearOrder κ] (key : α → κ) (l : List α) :
    (orderBy (fun a b => key a ≤ key b) l).Pairwise fun a b => key a ≤ key b := by
  have htotal : Std.Total fun a b : α => decide (key a ≤ key b) = true :=
    ⟨fun a b => by simpa using le_total (key a) (key b)⟩
  have htrans : IsTrans α fun a b : α => decide (key a ≤ key b) = true :=
    ⟨fun a b c hab hbc => by
      rw [decide_eq_true_eq] at hab hbc ⊢
      exact hab.trans hbc⟩
  exact (List.pairwise_insertionSort _ l).imp fun hab => of_decide_eq_true hab

theorem pairwise_orderBy (key : α → Nat) {l : List α} (h : (l.map key).Nodup) :
    (orderBy (fun a b => key a ≤ key b) l).Pairwise fun a b => key a < key b := by
  have hdistinct : (orderBy (fun a b => key a ≤ key b) l).Pairwise fun a b => key a ≠ key b :=
    List.pairwise_map.mp ((nodup_map_orderBy _ l key).mpr h)
  refine ((sorted_orderBy key l).and hdistinct).imp ?_
  rintro a b ⟨hle, hne⟩
  exact Nat.lt_of_le_of_ne hle hne

/-- Sorting by a linear order forgets the order the rows came in, and nothing else. -/
theorem orderBy_eq_iff_perm {le : α → α → Bool} (htotal : ∀ a b, le a b = true ∨ le b a = true)
    (htrans : ∀ a b c, le a b = true → le b c = true → le a c = true)
    (hantisymm : ∀ a b, le a b = true → le b a = true → a = b) (l m : List α) :
    orderBy le l = orderBy le m ↔ l.Perm m := by
  have htotal' : Std.Total fun a b : α => le a b = true := ⟨htotal⟩
  have htrans' : IsTrans α fun a b : α => le a b = true := ⟨htrans⟩
  have hperm : ∀ l : List α, (orderBy le l).Perm l := fun l => List.perm_insertionSort _ l
  constructor
  · intro heq
    exact (hperm l).symm.trans (heq ▸ hperm m)
  · intro h
    exact ((hperm l).trans (h.trans (hperm m).symm)).eq_of_pairwise
      (fun a b _ _ => hantisymm a b) (List.pairwise_insertionSort _ l)
      (List.pairwise_insertionSort _ m)

theorem orderBy_eq_of_perm {l m : List Nat} (h : l.Perm m) :
    orderBy (fun a b => a ≤ b) l = orderBy (fun a b => a ≤ b) m := by
  refine (orderBy_eq_iff_perm ?_ ?_ ?_ l m).mpr h
  · intro a b
    simpa using Nat.le_total a b
  · intro a b c hab hbc
    exact decide_eq_true (Nat.le_trans (of_decide_eq_true hab) (of_decide_eq_true hbc))
  · intro a b hab hba
    exact Nat.le_antisymm (of_decide_eq_true hab) (of_decide_eq_true hba)

theorem mem_take_of_le {key : α → Nat} {l : List α} (h : l.Pairwise fun a b => key a < key b)
    {k : Nat} {a last : α} (hlast : last ∈ l.take k) (ha : a ∈ l) (hle : key a ≤ key last) :
    a ∈ l.take k := by
  rw [← List.take_append_drop k l] at ha h
  obtain htake | hdrop := List.mem_append.mp ha
  · exact htake
  · have hlt := (List.pairwise_append.mp h).2.2 last hlast a hdrop
    omega

/-- In a list sorted by a key, a value that never decreases is monotone in the key. -/
theorem le_of_pairwise {key value : α → Nat} {l : List α}
    (h : l.Pairwise fun a b => key a < key b ∧ value a ≤ value b) {a b : α} (ha : a ∈ l)
    (hb : b ∈ l) (hle : key a ≤ key b) : value a ≤ value b := by
  induction l with
  | nil => exact absurd ha List.not_mem_nil
  | cons x xs ih =>
      obtain ⟨hfirst, hrest⟩ := List.pairwise_cons.mp h
      rcases List.mem_cons.mp ha with rfl | ha' <;> rcases List.mem_cons.mp hb with rfl | hb'
      · exact Nat.le_refl _
      · exact (hfirst b hb').2
      · exact absurd (hfirst a ha').1 (Nat.not_lt.mpr hle)
      · exact ih hrest ha' hb'

theorem find?_eq_some_iff_of_nodup {κ : Type} [DecidableEq κ] (key : α → κ) {l : List α}
    (h : (l.map key).Nodup) (k : κ) (a : α) :
    (l.find? fun x => key x = k) = some a ↔ a ∈ l ∧ key a = k := by
  induction l with
  | nil => simp
  | cons x xs ih =>
      rw [List.map_cons, List.nodup_cons] at h
      rw [List.find?_cons]
      by_cases hx : key x = k
      · rw [decide_eq_true hx]
        simp only [Option.some.injEq, List.mem_cons]
        constructor
        · rintro rfl
          exact ⟨Or.inl rfl, hx⟩
        · rintro ⟨rfl | ha, hk⟩
          · rfl
          · exact absurd (List.mem_map.mpr ⟨a, ha, hk.trans hx.symm⟩) h.1
      · rw [decide_eq_false hx]
        simp only [List.mem_cons]
        rw [ih h.2]
        constructor
        · rintro ⟨ha, hk⟩
          exact ⟨Or.inr ha, hk⟩
        · rintro ⟨rfl | ha, hk⟩
          · exact absurd hk hx
          · exact ⟨ha, hk⟩

/-- A truth value of SQL: `none` is unknown. -/
abbrev Truth := Option Bool

/-- A condition that says of each source what another says of its rows can be asked of the
rows. -/
theorem flatMap_filter_and {l : List α} {p q : α → Bool} {f : α → List β} {r : β → Bool}
    (h : ∀ a ∈ l, ∀ b ∈ f a, r b = q a) :
    (l.filter fun a => p a && q a).flatMap f = ((l.filter p).flatMap f).filter r := by
  induction l with
  | nil => rfl
  | cons a as ih =>
      have hhead := h a List.mem_cons_self
      have hrest := ih fun b hb => h b (List.mem_cons_of_mem _ hb)
      rw [List.filter_cons, List.filter_cons]
      cases p a with
      | false => exact hrest
      | true =>
          cases hq : q a with
          | false =>
              have hnone : (f a).filter r = [] :=
                List.filter_eq_nil_iff.mpr fun b hb => by rw [hhead b hb, hq]; decide
              simp only [Bool.true_and, Bool.false_eq_true, if_false, if_true, List.flatMap_cons,
                List.filter_append, hnone, List.nil_append]
              exact hrest
          | true =>
              have hall : (f a).filter r = f a :=
                List.filter_eq_self.mpr fun b hb => (hhead b hb).trans hq
              simp only [Bool.true_and, if_true, List.flatMap_cons, List.filter_append, hall]
              rw [hrest]

namespace Truth

/-- Whether a `WHERE` clause keeps the row. -/
def holds (t : Truth) : Bool := t == some true

def and : Truth → Truth → Truth
  | some false, _ => some false
  | _, some false => some false
  | some true, some true => some true
  | _, _ => none

def or : Truth → Truth → Truth
  | some true, _ => some true
  | _, some true => some true
  | some false, some false => some false
  | _, _ => none

def not : Truth → Truth := Option.map fun b => !b

/-- `=` on nullable operands. -/
def eq [DecidableEq α] (a b : Option α) : Truth :=
  match a, b with
  | some x, some y => some (decide (x = y))
  | _, _ => none

/-- `x IN (…)` and `x = ANY(array)` over a list without nulls. -/
def mem [DecidableEq α] (a : Option α) (l : List α) : Truth :=
  a.map fun x => decide (x ∈ l)

@[simp] theorem and_some (a b : Bool) : and (some a) (some b) = some (a && b) := by
  cases a <;> cases b <;> rfl

@[simp] theorem or_some (a b : Bool) : or (some a) (some b) = some (a || b) := by
  cases a <;> cases b <;> rfl

end Truth

/-! A parameter without a type of its own takes the type its uses ask for. -/

inductive ParameterUse
  | uuidColumn | uuidCast | textCast
  deriving DecidableEq, Repr

/-- A parameter that is the value of a uuid column and is cast to text needs a cast to
uuid somewhere; without one the statement is refused. -/
def parameterResolves (uses : List ParameterUse) : Bool :=
  !(uses.contains .uuidColumn && uses.contains .textCast) || uses.contains .uuidCast

end Relational
