import Mathlib.Data.List.Nodup
import Mathlib.Data.List.Count
import Mathlib.Data.List.Basic

/-!
Keyed tables: a finite list of rows in insertion order in which no key occurs
twice. The primary key is enforced by the type, so an insertion under a taken
key has no result. Every operation is described by what `get?` returns after it.
-/

namespace Relational

theorem countP_lt_of_imp {α : Type} {l : List α} {p q : α → Bool}
    (himp : ∀ x ∈ l, q x = true → p x = true) {x : α} (hx : x ∈ l) (hp : p x = true)
    (hq : q x = false) : l.countP q < l.countP p := by
  induction l with
  | nil => cases hx
  | cons y ys ih =>
      have hle : ys.countP q ≤ ys.countP p :=
        List.countP_mono_left fun z hz => himp z (List.mem_cons_of_mem _ hz)
      rw [List.countP_cons, List.countP_cons]
      rcases List.mem_cons.mp hx with rfl | hx
      · simp only [hp, hq, if_true, Bool.false_eq_true, if_false]
        omega
      · have hlt := ih (fun z hz => himp z (List.mem_cons_of_mem _ hz)) hx
        have hy := himp y List.mem_cons_self
        by_cases hqy : q y = true
        · simp only [hqy, hy hqy, if_true]
          omega
        · simp only [hqy, Bool.false_eq_true, if_false]
          omega

/-- The rows of one table; the key stands beside the row, not in it. -/
structure Table (κ ρ : Type) where
  entries : List (κ × ρ)
  nodup : (entries.map Prod.fst).Nodup

namespace Table

variable {κ ρ : Type}

def empty : Table κ ρ := ⟨[], List.nodup_nil⟩

instance : Inhabited (Table κ ρ) := ⟨empty⟩

theorem ext_entries {s t : Table κ ρ} (h : s.entries = t.entries) : s = t := by
  cases s; cases t; simp_all

variable [DecidableEq κ]

def get? (t : Table κ ρ) (k : κ) : Option ρ :=
  (t.entries.find? fun entry => entry.1 = k).map Prod.snd

/-- `UPDATE … WHERE` on a computed condition. -/
def updateWhere (t : Table κ ρ) (p : κ → ρ → Bool) (f : κ → ρ → ρ) : Table κ ρ where
  entries := t.entries.map fun entry =>
    (entry.1, if p entry.1 entry.2 then f entry.1 entry.2 else entry.2)
  nodup := by simpa [List.map_map, Function.comp_def] using t.nodup

/-- `UPDATE … WHERE id = k`. -/
def modify (t : Table κ ρ) (k : κ) (f : ρ → ρ) : Table κ ρ :=
  t.updateWhere (fun k' _ => k' = k) (fun _ => f)

/-- `INSERT`, with no result when the primary key is taken. -/
def insert? (t : Table κ ρ) (k : κ) (r : ρ) : Option (Table κ ρ) :=
  if h : k ∈ t.entries.map Prod.fst then none
  else some
    { entries := t.entries ++ [(k, r)]
      nodup := by
        rw [List.map_append, List.nodup_append]
        refine ⟨t.nodup, by simp, ?_⟩
        simp only [List.map_cons, List.map_nil, List.mem_singleton]
        rintro a ha b rfl rfl
        exact h ha }

/-- `INSERT … ON CONFLICT (key) DO UPDATE`. -/
def upsert (t : Table κ ρ) (k : κ) (r : ρ) (f : ρ → ρ) : Table κ ρ :=
  match t.insert? k r with
  | some t' => t'
  | none => t.modify k f

/-- Several rows at once, with no result when one of the keys is taken. -/
def insertAll (t : Table κ ρ) (rows : List (κ × ρ)) : Option (Table κ ρ) :=
  rows.foldlM (fun t row => t.insert? row.1 row.2) t

/-- `DELETE … WHERE`. -/
def deleteWhere (t : Table κ ρ) (p : κ → ρ → Bool) : Table κ ρ where
  entries := t.entries.filter fun entry => !p entry.1 entry.2
  nodup := t.nodup.sublist (List.filter_sublist.map _)

def select (t : Table κ ρ) (p : κ → ρ → Bool) : List (κ × ρ) :=
  t.entries.filter fun entry => p entry.1 entry.2

/-- `SELECT count(*) … WHERE`. -/
def count (t : Table κ ρ) (p : κ → ρ → Bool) : Nat :=
  t.entries.countP fun entry => p entry.1 entry.2

/-- `SELECT EXISTS (… WHERE)`. -/
def any (t : Table κ ρ) (p : κ → ρ → Bool) : Bool :=
  t.entries.any fun entry => p entry.1 entry.2

variable (t : Table κ ρ) (p : κ → ρ → Bool)

theorem get?_eq_some_iff (k : κ) (r : ρ) :
    t.get? k = some r ↔ (k, r) ∈ t.entries := by
  unfold get?
  constructor
  · intro h
    obtain ⟨⟨k', r'⟩, hfind, rfl⟩ := Option.map_eq_some_iff.mp h
    have hkey := List.find?_some hfind
    simp only [decide_eq_true_eq] at hkey
    subst hkey
    exact List.mem_of_find?_eq_some hfind
  · intro hmem
    obtain ⟨⟨k', r'⟩, hfind⟩ :
        ∃ entry, (t.entries.find? fun entry => entry.1 = k) = some entry := by
      rw [← Option.isSome_iff_exists, List.find?_isSome]
      exact ⟨(k, r), hmem, by simp⟩
    have hkey := List.find?_some hfind
    simp only [decide_eq_true_eq] at hkey
    have hsame := List.inj_on_of_nodup_map t.nodup (List.mem_of_find?_eq_some hfind) hmem hkey
    rw [hfind, hsame]
    rfl

theorem get?_eq_none_iff (k : κ) :
    t.get? k = none ↔ k ∉ t.entries.map Prod.fst := by
  rw [Option.eq_none_iff_forall_ne_some]
  simp only [ne_eq, get?_eq_some_iff, List.mem_map, Prod.exists, exists_and_right, exists_eq_right,
    not_exists]

theorem get?_updateWhere (f : κ → ρ → ρ) (k : κ) :
    (t.updateWhere p f).get? k =
      (t.get? k).map fun r => if p k r then f k r else r := by
  ext r
  rw [get?_eq_some_iff, Option.map_eq_some_iff]
  simp only [updateWhere, List.mem_map, Prod.mk.injEq, Prod.exists, get?_eq_some_iff]
  constructor
  · rintro ⟨k', r', hmem, rfl, rfl⟩
    exact ⟨r', hmem, rfl⟩
  · rintro ⟨r', hmem, rfl⟩
    exact ⟨k, r', hmem, rfl, rfl⟩

theorem get?_modify (k : κ) (f : ρ → ρ) (k' : κ) :
    (t.modify k f).get? k' = if k' = k then (t.get? k').map f else t.get? k' := by
  rw [modify, get?_updateWhere]
  by_cases h : k' = k <;> simp [h]

@[simp] theorem get?_modify_self (k : κ) (f : ρ → ρ) :
    (t.modify k f).get? k = (t.get? k).map f := by
  rw [get?_modify, if_pos rfl]

theorem get?_modify_of_ne {k k' : κ} (f : ρ → ρ) (h : k' ≠ k) :
    (t.modify k f).get? k' = t.get? k' := by
  rw [get?_modify, if_neg h]

theorem map_get?_modify {γ : Type*} (k : κ) (f : ρ → ρ) (π : ρ → γ) (h : ∀ r, π (f r) = π r) :
    (fun i => ((t.modify k f).get? i).map π) = fun i => (t.get? i).map π := by
  funext i
  rw [get?_modify]
  split
  · cases t.get? i with
    | none => rfl
    | some r => exact congrArg some (h r)
  · rfl

theorem insert?_eq_some_iff (k : κ) (r : ρ) (t' : Table κ ρ) :
    t.insert? k r = some t' ↔ t.get? k = none ∧ t'.entries = t.entries ++ [(k, r)] := by
  rw [get?_eq_none_iff]
  unfold insert?
  by_cases h : k ∈ t.entries.map Prod.fst
  · simp [h]
  · rw [dif_neg h, Option.some_inj]
    constructor
    · rintro rfl
      exact ⟨h, rfl⟩
    · rintro ⟨-, hent⟩
      exact ext_entries hent.symm

theorem get?_insert {t t' : Table κ ρ} {k : κ} {r : ρ} (h : t.insert? k r = some t') (k' : κ) :
    t'.get? k' = if k' = k then some r else t.get? k' := by
  obtain ⟨hfree, hent⟩ := (insert?_eq_some_iff t k r t').mp h
  ext r'
  rw [get?_eq_some_iff, hent]
  by_cases hk : k' = k
  · subst hk
    rw [get?_eq_none_iff] at hfree
    have hnot : (k', r') ∉ t.entries := fun hmem => hfree (List.mem_map_of_mem hmem)
    simp [hnot, eq_comm]
  · simp [hk, get?_eq_some_iff]

theorem insert?_free {t t' : Table κ ρ} {k : κ} {r : ρ} (h : t.insert? k r = some t') :
    t.get? k = none :=
  ((insert?_eq_some_iff t k r t').mp h).1

theorem insert?_keeps {t t' : Table κ ρ} {k k' : κ} {r r' : ρ} (h : t.insert? k r = some t')
    (hrow : t.get? k' = some r') : t'.get? k' = some r' := by
  have hne : k' ≠ k := by
    rintro rfl
    cases (insert?_free h).symm.trans hrow
  rw [get?_insert h, if_neg hne]
  exact hrow

theorem insert?_isSome (k : κ) (r : ρ) (h : t.get? k = none) :
    ∃ t', t.insert? k r = some t' := by
  rw [get?_eq_none_iff] at h
  exact ⟨_, dif_neg h⟩

theorem insert?_eq_none_iff (k : κ) (r : ρ) :
    t.insert? k r = none ↔ ∃ old, t.get? k = some old := by
  rw [← Option.isSome_iff_exists, Option.isSome_iff_ne_none, Ne, get?_eq_none_iff, not_not]
  unfold insert?
  by_cases h : k ∈ t.entries.map Prod.fst <;> simp [h]

theorem get?_insertAll {t t' : Table κ ρ} {rows : List (κ × ρ)}
    (h : t.insertAll rows = some t') (k : κ) (r : ρ) :
    t'.get? k = some r ↔ t.get? k = some r ∨ (k, r) ∈ rows := by
  induction rows generalizing t with
  | nil =>
      cases h
      simp
  | cons row rest ih =>
      obtain ⟨t₁, hinsert, hrest⟩ := Option.bind_eq_some_iff.mp h
      rw [ih hrest, get?_insert hinsert, List.mem_cons]
      by_cases hk : k = row.1
      · have hfree := insert?_free hinsert
        subst hk
        rw [if_pos rfl, hfree]
        constructor
        · rintro (hr | hr)
          · cases hr
            exact Or.inr (Or.inl rfl)
          · exact Or.inr (Or.inr hr)
        · rintro (hr | hr | hr)
          · cases hr
          · exact Or.inl (congrArg some (Prod.mk.inj hr).2.symm)
          · exact Or.inr hr
      · rw [if_neg hk]
        refine or_congr_right (or_iff_right ?_).symm
        rintro rfl
        exact hk rfl

theorem get?_upsert (k : κ) (r : ρ) (f : ρ → ρ) (k' : κ) :
    (t.upsert k r f).get? k' =
      if k' = k then some (((t.get? k).map f).getD r) else t.get? k' := by
  unfold upsert
  cases hinsert : t.insert? k r with
  | some t' =>
      have hfree := insert?_free hinsert
      simp only [get?_insert hinsert, hfree, Option.map_none, Option.getD_none]
  | none =>
      obtain ⟨old, hold⟩ := (insert?_eq_none_iff t k r).mp hinsert
      simp only [get?_modify]
      by_cases hk : k' = k
      · simp [hk, hold]
      · simp [hk]

theorem get?_deleteWhere (k : κ) :
    (t.deleteWhere p).get? k = (t.get? k).filter fun r => !p k r := by
  ext r
  rw [get?_eq_some_iff, Option.filter_eq_some_iff, get?_eq_some_iff]
  simp [deleteWhere]

/-- Rewriting one counted row so that it no longer counts lowers the count. -/
theorem count_modify_lt {k : κ} {r : ρ} (f : ρ → ρ) (hk : t.get? k = some r) (hp : p k r = true)
    (hf : p k (f r) = false) :
    (t.modify k f).count p < t.count p := by
  simp only [count, modify, updateWhere, List.countP_map, Function.comp_def]
  have hmem := (t.get?_eq_some_iff k r).mp hk
  refine countP_lt_of_imp ?_ hmem hp (by simpa using hf)
  rintro ⟨k', r'⟩ hx hq
  by_cases hkk : k' = k
  · subst hkk
    have hr : r' = r := by
      have h' := (t.get?_eq_some_iff k' r').mpr hx
      rw [hk] at h'
      exact (Option.some.inj h').symm
    subst hr
    exact hp
  · simpa [hkk] using hq

theorem count_pos_iff :
    0 < t.count p ↔ ∃ k r, t.get? k = some r ∧ p k r = true := by
  simp only [count, List.countP_pos_iff, Prod.exists, get?_eq_some_iff]

omit [DecidableEq κ] in
theorem count_le_length : t.count p ≤ t.entries.length :=
  List.countP_le_length

theorem mem_select (k : κ) (r : ρ) :
    (k, r) ∈ t.select p ↔ t.get? k = some r ∧ p k r = true := by
  rw [select, List.mem_filter, get?_eq_some_iff]

theorem select_insert {t t' : Table κ ρ} {k : κ} {r : ρ} (h : t.insert? k r = some t')
    {p : κ → ρ → Bool} (hp : p k r = false) : t'.select p = t.select p := by
  unfold insert? at h
  split at h
  · cases h
  · cases h
    rw [select, List.filter_append, List.filter_singleton, hp]
    exact List.append_nil _

omit [DecidableEq κ] in
theorem nodup_map_fst_select :
    ((t.select p).map Prod.fst).Nodup :=
  t.nodup.sublist (List.filter_sublist.map _)

/-- Every counted row is counted on the other side, or is one of the listed ones. -/
theorem count_le_count_add {t t' : Table κ ρ} {p q : κ → ρ → Bool} (l : List κ)
    (h : ∀ k r, t.get? k = some r → p k r = true →
      k ∈ l ∨ ∃ r', t'.get? k = some r' ∧ q k r' = true) :
    t.count p ≤ t'.count q + l.length := by
  have hcount : ∀ (t : Table κ ρ) (p : κ → ρ → Bool),
      t.count p = ((t.select p).map Prod.fst).length := by
    intro t p
    rw [List.length_map, select, count, List.countP_eq_length_filter]
  have hsub : (t.select p).map Prod.fst ⊆ l ++ (t'.select q).map Prod.fst := by
    intro k hk
    obtain ⟨⟨k, r⟩, hmem, rfl⟩ := List.mem_map.mp hk
    obtain ⟨hget, hp⟩ := (t.mem_select p k r).mp hmem
    obtain hlisted | ⟨r', hget', hq⟩ := h k r hget hp
    · exact List.mem_append_left _ hlisted
    · refine List.mem_append_right _ (List.mem_map.mpr ⟨(k, r'), ?_, rfl⟩)
      exact (t'.mem_select q k r').mpr ⟨hget', hq⟩
  have hle := (List.subperm_of_subset (t.nodup_map_fst_select p) hsub).length_le
  rw [List.length_append, ← hcount, ← hcount] at hle
  omega

theorem count_le_count {t t' : Table κ ρ} {p q : κ → ρ → Bool}
    (h : ∀ k r, t.get? k = some r → p k r = true → ∃ r', t'.get? k = some r' ∧ q k r' = true) :
    t.count p ≤ t'.count q :=
  count_le_count_add [] fun k r hget hp => Or.inr (h k r hget hp)

/-- The counted rows are those under the listed keys. -/
theorem count_eq_length {t : Table κ ρ} {p : κ → ρ → Bool} {l : List κ} (hl : l.Nodup)
    (h : ∀ k, k ∈ l ↔ ∃ r, t.get? k = some r ∧ p k r = true) : t.count p = l.length := by
  have hperm : ((t.select p).map Prod.fst).Perm l := by
    refine (List.perm_ext_iff_of_nodup (t.nodup_map_fst_select p) hl).mpr fun k => ?_
    rw [h k, List.mem_map]
    constructor
    · rintro ⟨⟨k, r⟩, hmem, rfl⟩
      exact ⟨r, (t.mem_select p k r).mp hmem⟩
    · rintro ⟨r, hr⟩
      exact ⟨(k, r), (t.mem_select p k r).mpr hr, rfl⟩
  rw [← hperm.length_eq, List.length_map, select, count, List.countP_eq_length_filter]

theorem select_eq_singleton {k : κ} {r : ρ} (hk : t.get? k = some r) (hp : p k r = true)
    (hunique : ∀ k' r', t.get? k' = some r' → p k' r' = true → k' = k) :
    t.select p = [(k, r)] := by
  refine List.perm_singleton.mp ((List.perm_ext_iff_of_nodup ?_ (List.nodup_singleton _)).mpr ?_)
  · exact (t.nodup_map_fst_select p).of_map _
  · rintro ⟨k', r'⟩
    rw [mem_select, List.mem_singleton, Prod.mk.injEq]
    constructor
    · rintro ⟨hk', hp'⟩
      obtain rfl := hunique k' r' hk' hp'
      rw [hk] at hk'
      exact ⟨rfl, (Option.some.inj hk').symm⟩
    · rintro ⟨rfl, rfl⟩
      exact ⟨hk, hp⟩

theorem select_eq_nil (h : ∀ k r, t.get? k = some r → p k r = false) : t.select p = [] := by
  rw [List.eq_nil_iff_forall_not_mem]
  rintro ⟨k, r⟩ hmem
  obtain ⟨hk, hp⟩ := (t.mem_select p k r).mp hmem
  rw [h k r hk] at hp
  cases hp

theorem any_eq_true_iff :
    t.any p = true ↔ ∃ k r, t.get? k = some r ∧ p k r = true := by
  simp only [any, List.any_eq_true, Prod.exists, get?_eq_some_iff]

theorem any_eq_false_iff :
    t.any p = false ↔ ∀ k r, t.get? k = some r → p k r = false := by
  rw [← Bool.not_eq_true, any_eq_true_iff]
  simp only [not_exists, not_and, Bool.not_eq_true]

end Table
end Relational
