import JobmanControl.Library.Query
import JobmanControl.Library.Table

/-!
Pages of ordered lists. The first `k` elements of several groups together are
found among the first `k` of each group, so a query may limit every group before it
merges them. A reader who goes on from the last row of each page comes to the end, and
has then seen every key.
-/

namespace Relational

theorem length_le_of_mem_take {l m : List Nat} {k : Nat} (hnodup : l.Nodup)
    (h : ∀ x ∈ l, x ∈ m.take k) : l.length ≤ k := by
  have hle := (List.subperm_of_subset hnodup h).length_le
  rw [List.length_take] at hle
  omega

theorem lt_of_not_mem_take {l : List Nat} {k x : Nat} (hl : l.Pairwise (· < ·)) (hx : x ∈ l)
    (hout : x ∉ l.take k) : (l.take k).length = k ∧ ∀ y ∈ l.take k, y < x := by
  rw [← List.take_append_drop k l] at hx hl
  have hdrop := (List.mem_append.mp hx).resolve_left hout
  refine ⟨?_, fun y hy => (List.pairwise_append.mp hl).2.2 y hy x hdrop⟩
  have hpos := List.length_pos_of_mem hdrop
  rw [List.length_drop] at hpos
  rw [List.length_take]
  omega

theorem not_mem_take_of_smaller {l m : List Nat} {k x : Nat} (hm : m.Pairwise (· < ·))
    (hl : l.Pairwise (· < ·)) (hlength : l.length = k) (hmem : ∀ y ∈ l, y ∈ m)
    (hlt : ∀ y ∈ l, y < x) : x ∉ m.take k := by
  intro hx
  have hnodup : (x :: l).Nodup := by
    rw [List.nodup_cons]
    exact ⟨fun hin => Nat.lt_irrefl x (hlt x hin), hl.imp fun h => h.ne⟩
  have hle := length_le_of_mem_take hnodup (m := m) (k := k) ?_
  · rw [List.length_cons] at hle
    omega
  · intro y hy
    obtain rfl | hy := List.mem_cons.mp hy
    · exact hx
    · have hm' : m.Pairwise fun a b => id a < id b := hm
      exact mem_take_of_le hm' hx (hmem y hy) (Nat.le_of_lt (hlt y hy))

/-- Two increasing lists have the same first `k` elements when the first list has all of
those of the second and nothing that the second lacks. -/
theorem take_eq_take_of_subset {l m : List Nat} {k : Nat} (hl : l.Pairwise (· < ·))
    (hm : m.Pairwise (· < ·)) (hsub : ∀ x ∈ l, x ∈ m) (hfirst : ∀ x ∈ m.take k, x ∈ l) :
    l.take k = m.take k := by
  have hl' := hl.sublist (List.take_sublist k l)
  have hm' := hm.sublist (List.take_sublist k m)
  have hforward : ∀ x ∈ m.take k, x ∈ l.take k := by
    intro x hx
    by_contra hout
    obtain ⟨hlength, hlt⟩ := lt_of_not_mem_take hl (hfirst x hx) hout
    exact not_mem_take_of_smaller hm hl' hlength
      (fun y hy => hsub y (List.mem_of_mem_take hy)) hlt hx
  have hcount := (List.subperm_of_subset (hl.imp fun h => h.ne) hsub).length_le
  have hperm : (m.take k).Perm (l.take k) := by
    refine (List.subperm_of_subset (hm'.imp fun h => h.ne) hforward).perm_of_length_le ?_
    rw [List.length_take, List.length_take]
    omega
  exact (hperm.eq_of_pairwise (fun a b _ _ hab hba => absurd hab (Nat.lt_asymm hba)) hm' hl').symm

theorem flatMap_take_sublist (groups : List (List Nat)) (k : Nat) :
    List.Sublist (groups.flatMap fun g => g.take k) groups.flatten := by
  induction groups with
  | nil => exact List.Sublist.refl _
  | cons g rest ih =>
      rw [List.flatMap_cons, List.flatten_cons]
      exact (List.take_sublist k g).append ih

/-- Sorting the first `k` of each group gives the same first `k` as sorting everything. -/
theorem take_orderBy_flatMap_take {groups : List (List Nat)} {k : Nat}
    (hgroups : ∀ g ∈ groups, g.Pairwise (· < ·)) (hnodup : groups.flatten.Nodup) :
    (orderBy (fun a b => a ≤ b) (groups.flatMap fun g => g.take k)).take k =
      (orderBy (fun a b => a ≤ b) groups.flatten).take k := by
  have hall : (orderBy (fun a b : Nat => a ≤ b) groups.flatten).Pairwise (· < ·) :=
    pairwise_orderBy id (by rw [List.map_id]; exact hnodup)
  have hsublist := flatMap_take_sublist groups k
  have hsome : (orderBy (fun a b : Nat => a ≤ b) (groups.flatMap fun g => g.take k)).Pairwise
      (· < ·) := pairwise_orderBy id (by rw [List.map_id]; exact hnodup.sublist hsublist)
  refine take_eq_take_of_subset hsome hall ?_ ?_
  · intro x hx
    rw [mem_orderBy] at hx ⊢
    exact hsublist.subset hx
  · intro x hx
    have hin := (mem_orderBy _ _ _).mp (List.mem_of_mem_take hx)
    obtain ⟨g, hg, hxg⟩ := List.mem_flatten.mp hin
    rw [mem_orderBy, List.mem_flatMap]
    refine ⟨g, hg, ?_⟩
    by_contra hout
    obtain ⟨hlength, hlt⟩ := lt_of_not_mem_take (hgroups g hg) hxg hout
    refine not_mem_take_of_smaller hall ((hgroups g hg).sublist (List.take_sublist _ _)) hlength
      (fun y hy => ?_) hlt hx
    rw [mem_orderBy]
    exact List.mem_flatten.mpr ⟨g, hg, List.mem_of_mem_take hy⟩

theorem take_filterMap_of_isSome {α β : Type} {f : α → Option β} {l : List α} (k : Nat)
    (h : ∀ x ∈ l, ∃ y, f x = some y) : (l.take k).filterMap f = (l.filterMap f).take k := by
  induction l generalizing k with
  | nil => rw [List.take_nil, List.filterMap_nil, List.take_nil]
  | cons x xs ih =>
      obtain ⟨y, hy⟩ := h x List.mem_cons_self
      cases k with
      | zero => rfl
      | succ k =>
          rw [List.take_succ_cons, List.filterMap_cons_some hy, List.filterMap_cons_some hy,
            List.take_succ_cons, ih k fun z hz => h z (List.mem_cons_of_mem _ hz)]

section Pages

variable {α κ γ π ε : Type}

/-- The pages a reader gets who goes on from where each page ends. -/
inductive Pages (read : Option γ → Except ε π) (next : π → Option γ) :
    Option γ → List π → Prop
  | last {after : Option γ} {page : π} : read after = .ok page → next page = none →
      Pages read next after [page]
  | more {after : Option γ} {page : π} {cursor : γ} {rest : List π} : read after = .ok page →
      next page = some cursor → Pages read next (some cursor) rest →
      Pages read next after (page :: rest)

theorem Pages.unique {read : Option γ → Except ε π} {next : π → Option γ} {after : Option γ}
    {pages pages' : List π} (h : Pages read next after pages)
    (h' : Pages read next after pages') : pages = pages' := by
  induction h generalizing pages' with
  | last hpage hnone =>
      cases h' with
      | last hpage' _ =>
          cases hpage.symm.trans hpage'
          rfl
      | more hpage' hsome _ =>
          cases hpage.symm.trans hpage'
          cases hnone.symm.trans hsome
  | more hpage hsome _ ih =>
      cases h' with
      | last hpage' hnone =>
          cases hpage.symm.trans hpage'
          cases hsome.symm.trans hnone
      | more hpage' hsome' hrest' =>
          cases hpage.symm.trans hpage'
          cases hsome.symm.trans hsome'
          rw [ih hrest']

theorem Pages.read {read : Option γ → Except ε π} {next : π → Option γ} {after : Option γ}
    {pages : List π} (h : Pages read next after pages) {page : π} (hpage : page ∈ pages) :
    ∃ after', read after' = .ok page := by
  induction h with
  | last hread _ =>
      cases List.mem_singleton.mp hpage
      exact ⟨_, hread⟩
  | more hread _ _ ih =>
      obtain rfl | hrest := List.mem_cons.mp hpage
      · exact ⟨_, hread⟩
      · exact ih hrest

variable [LinearOrder κ]

/-- The rows a query with a cursor finds, in the order of their keys. -/
def rowsAfter (key : α → κ) (rows : List α) (after : Option κ) : List α :=
  orderBy (fun a b => key a ≤ key b) (rows.filter fun a => after.all (· < key a))

variable {key : α → κ} {rows : List α}

theorem mem_rowsAfter {after : Option κ} {a : α} :
    a ∈ rowsAfter key rows after ↔ a ∈ rows ∧ ∀ k, after = some k → k < key a := by
  rw [rowsAfter, mem_orderBy, List.mem_filter]
  cases after <;> simp

theorem length_rowsAfter_lt {after : Option κ} {last : α}
    (hlast : last ∈ rowsAfter key rows after) :
    (rowsAfter key rows (some (key last))).length < (rowsAfter key rows after).length := by
  obtain ⟨hrow, hafter⟩ := mem_rowsAfter.mp hlast
  simp only [rowsAfter, orderBy, List.length_insertionSort, ← List.countP_eq_length_filter]
  refine countP_lt_of_imp ?_ hrow ?_ ?_
  · intro a _ hbeyond
    cases after with
    | none => rfl
    | some k => exact decide_eq_true ((hafter k rfl).trans (of_decide_eq_true hbeyond))
  · cases after with
    | none => rfl
    | some k => exact decide_eq_true (hafter k rfl)
  · exact decide_eq_false (lt_irrefl _)

variable (key rows) in
/-- A reader whose pages are the first rows after the cursor comes to an end, and has then
seen the key of every row. -/
theorem pages_cover {limit : Nat} (hlimit : 0 < limit) (read : Option γ → Except ε π)
    (next : π → Option γ) (items : π → List α) (place : γ → κ)
    (hread : ∀ after, ∃ page, read after = .ok page ∧
      items page = (rowsAfter key rows (after.map place)).take limit ∧
      (next page).map place = if limit < (rowsAfter key rows (after.map place)).length then
        ((rowsAfter key rows (after.map place)).take limit).getLast?.map key else none)
    (after : Option γ) :
    ∃ pages, Pages read next after pages ∧ ∀ a ∈ rowsAfter key rows (after.map place),
      ∃ page ∈ pages, ∃ a' ∈ items page, key a' = key a := by
  induction hn : (rowsAfter key rows (after.map place)).length using Nat.strong_induction_on
    generalizing after with
  | _ n ih =>
      obtain ⟨page, hpage, hitems, hnext⟩ := hread after
      have hsorted : (rowsAfter key rows (after.map place)).Pairwise fun a b => key a ≤ key b :=
        sorted_orderBy key _
      generalize hfound : rowsAfter key rows (after.map place) = found
        at hitems hnext hn hsorted ⊢
      by_cases hmore : limit < found.length
      · -- The page is full: its last row is where the reader goes on.
        obtain ⟨last, hlast⟩ : ∃ last, (found.take limit).getLast? = some last := by
          refine ⟨_, List.getLast?_eq_some_getLast (List.ne_nil_of_length_pos ?_)⟩
          rw [List.length_take]
          omega
        rw [if_pos hmore, hlast, Option.map_some] at hnext
        obtain ⟨cursor, hcursor, hplace⟩ := Option.map_eq_some_iff.mp hnext
        have hin := List.mem_of_getLast? hlast
        have hfewer := length_rowsAfter_lt (hfound ▸ List.mem_of_mem_take hin)
        rw [hfound, hn, ← hplace] at hfewer
        obtain ⟨pages, hpages, hcover⟩ := ih _ hfewer (some cursor) rfl
        refine ⟨page :: pages, .more hpage hcursor hpages, fun a ha => ?_⟩
        by_cases hfirst : a ∈ found.take limit
        · exact ⟨page, List.mem_cons_self, a, hitems ▸ hfirst, rfl⟩
        · rw [← List.take_append_drop limit found] at hsorted ha
          have hdrop := (List.mem_append.mp ha).resolve_left hfirst
          obtain hlt | heq := ((List.pairwise_append.mp hsorted).2.2 last hin a hdrop).lt_or_eq
          · rw [List.take_append_drop, ← hfound] at ha
            obtain ⟨page', hmem, hseen⟩ := hcover a (mem_rowsAfter.mpr
              ⟨(mem_rowsAfter.mp ha).1, fun k hk => by cases hk; rwa [hplace]⟩)
            exact ⟨page', List.mem_cons_of_mem _ hmem, hseen⟩
          · exact ⟨page, List.mem_cons_self, last, hitems ▸ hin, heq⟩
      · rw [if_neg hmore, Option.map_eq_none_iff] at hnext
        rw [List.take_of_length_le (Nat.le_of_not_lt hmore)] at hitems
        exact ⟨[page], .last hpage hnext,
          fun a ha => ⟨page, List.mem_singleton_self _, a, hitems ▸ ha, rfl⟩⟩

end Pages

end Relational
