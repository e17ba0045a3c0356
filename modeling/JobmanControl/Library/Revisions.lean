import Mathlib.Algebra.Order.Group.Nat
import Mathlib.Data.List.Count

/-!
Histories of an object with a revision. A call names the revision it expects and carries
an idempotency key: it commits and raises the revision if the revision is the expected
one, it is refused if it is not, and a call whose key was committed before with the same
request is a repetition. Histories are listed from the latest call back.
-/

namespace Revisions

inductive Outcome
  | committed | replayed | refused | other
  deriving DecidableEq, Repr

structure Entry (κ δ : Type) where
  record : κ
  digest : δ
  expected : Int
  /-- Nothing but its record and the revision can refuse the call. -/
  valid : Bool
  outcome : Outcome
  deriving DecidableEq, Repr

variable {κ δ : Type}

abbrev History (κ δ : Type) := List (Entry κ δ)

def Entry.commits (e : Entry κ δ) : Bool := e.outcome = .committed

def revision (start : Nat) (h : History κ δ) : Nat := start + h.countP Entry.commits

/-- The calls of a history that named a revision and committed. -/
def commitsAt (r : Nat) (h : History κ δ) : Nat :=
  h.countP fun e => e.commits && decide (e.expected = (r : Int))

/-- The record was not used at the start, and no call has committed it since. -/
def Unused (used : κ → Prop) (h : History κ δ) (record : κ) : Prop :=
  ¬used record ∧ ∀ e ∈ h, e.commits = true → e.record ≠ record

/-- How a call is answered after a history. -/
structure Fits (used : κ → Prop) (start : Nat) (h : History κ δ) (e : Entry κ δ) : Prop where
  current : e.commits = true → e.expected = revision start h
  wins : e.valid = true → Unused used h e.record → e.expected = revision start h →
    e.commits = true
  loses : e.valid = true → Unused used h e.record → e.expected ≠ revision start h →
    e.outcome = .refused
  repeats : e.valid = true →
    (∃ e' ∈ h, e'.commits = true ∧ e'.record = e.record ∧ e'.digest = e.digest) →
    e.outcome = .replayed

def Legal (used : κ → Prop) (start : Nat) : History κ δ → Prop
  | [] => True
  | e :: h => Legal used start h ∧ Fits used start h e

variable {used : κ → Prop} {start : Nat} {h : History κ δ} {e : Entry κ δ}

theorem revision_cons (start : Nat) (h : History κ δ) (e : Entry κ δ) :
    revision start (e :: h) = revision start h + if e.commits then 1 else 0 := by
  rw [revision, revision, List.countP_cons, Nat.add_assoc]

theorem start_le_revision (start : Nat) (h : History κ δ) : start ≤ revision start h :=
  Nat.le_add_right _ _

theorem revision_le_cons (start : Nat) (h : History κ δ) (e : Entry κ δ) :
    revision start h ≤ revision start (e :: h) := by
  rw [revision_cons]
  exact Nat.le_add_right _ _

theorem Legal.past (hl : Legal used start h) (he : e ∈ h) (hc : e.commits = true) :
    (start : Int) ≤ e.expected ∧ e.expected < revision start h := by
  induction h with
  | nil => cases he
  | cons e' h ih =>
      obtain ⟨hl, hfits⟩ := hl
      have hmono := revision_le_cons start h e'
      obtain rfl | he := List.mem_cons.mp he
      · have hstart := start_le_revision start h
        rw [revision_cons, if_pos hc, hfits.current hc]
        lia
      · have := ih hl he
        lia

/-- Each revision that is past was named by exactly one call that committed. -/
theorem Legal.one (hl : Legal used start h) {r : Nat} (hstart : start ≤ r)
    (hr : r < revision start h) : commitsAt r h = 1 := by
  unfold commitsAt
  induction h with
  | nil =>
      rw [revision, List.countP_nil] at hr
      lia
  | cons e h ih =>
      have hpast := fun e (he : e ∈ h) hc => Legal.past hl.1 he hc
      obtain ⟨hl, hfits⟩ := hl
      rw [revision_cons] at hr
      rw [List.countP_cons]
      by_cases hc : e.commits = true
      · rw [if_pos hc] at hr
        have hcurrent := hfits.current hc
        by_cases hlt : r < revision start h
        · rw [ih hl hlt, if_neg]
          simp only [hc, hcurrent, Bool.true_and, decide_eq_true_eq]
          lia
        · -- no earlier call can have named the revision that is reached only now
          have hnone : h.countP (fun e => e.commits && decide (e.expected = (r : Int))) = 0 := by
            refine List.countP_eq_zero.mpr fun e' he' hp => ?_
            simp only [Bool.and_eq_true, decide_eq_true_eq] at hp
            have := hpast e' he' hp.1
            lia
          rw [hnone, if_pos]
          simp only [hc, hcurrent, Bool.true_and, decide_eq_true_eq]
          lia
      · rw [if_neg hc] at hr
        rw [ih hl hr, if_neg]
        simp [hc]

theorem Legal.at (hl : Legal used start h) (he : e ∈ h) :
    ∃ after before, h = after ++ e :: before ∧ Legal used start before ∧
      Fits used start before e := by
  induction h with
  | nil => cases he
  | cons e' h ih =>
      obtain ⟨hl, hfits⟩ := hl
      obtain rfl | he := List.mem_cons.mp he
      · exact ⟨[], h, rfl, hl, hfits⟩
      · obtain ⟨after, before, rfl, hbefore, hat⟩ := ih hl he
        exact ⟨e' :: after, before, rfl, hbefore, hat⟩

theorem revision_le_append (start : Nat) (after before : History κ δ) :
    revision start before ≤ revision start (after ++ before) := by
  simp only [revision, List.countP_append]
  lia

theorem Legal.advances (hl : Legal used start h) (he : e ∈ h) (hvalid : e.valid = true)
    (hexpected : e.expected = start)
    (hnew : ∀ before after, h = after ++ e :: before → Unused used before e.record) :
    start < revision start h := by
  obtain ⟨after, before, rfl, -, hfits⟩ := hl.at he
  have hle := revision_le_append start after (e :: before)
  have hcons := revision_cons start before e
  have hstart := start_le_revision start before
  by_cases hr : e.expected = revision start before
  · rw [if_pos (hfits.wins hvalid (hnew before after rfl) hr)] at hcons
    lia
  · lia

/-- Calls that name one revision under keys of their own: one commits, the others are
refused. -/
theorem Legal.rivals [DecidableEq κ] (hl : Legal used start h) {r : Nat}
    (hr : r = start ∨ (start ≤ r ∧ r < revision start h))
    (hrivals : ∀ e ∈ h, e.expected = r → e.valid = true ∧ ¬used e.record ∧
      h.countP (fun e' => e'.record = e.record) = 1)
    (hsome : ∃ e ∈ h, e.expected = r) :
    commitsAt r h = 1 ∧
      ∀ e ∈ h, e.expected = r → e.commits = true ∨ e.outcome = .refused := by
  have hunused : ∀ e ∈ h, e.expected = r → ∀ before after, h = after ++ e :: before →
      Unused used before e.record := by
    rintro e he hexpected before after rfl
    obtain ⟨-, hused, hsole⟩ := hrivals e he hexpected
    refine ⟨hused, fun e' he' _ hrecord => ?_⟩
    rw [List.countP_append, List.countP_cons, if_pos (by simp)] at hsole
    have hpos : 0 < before.countP (fun e' => e'.record = e.record) :=
      List.countP_pos_iff.mpr ⟨e', he', by simpa using hrecord⟩
    lia
  constructor
  · obtain ⟨e, he, hexpected⟩ := hsome
    obtain rfl | ⟨hstart, hlt⟩ := hr
    · exact hl.one (Nat.le_refl _) (hl.advances he (hrivals e he hexpected).1 hexpected
        (hunused e he hexpected))
    · exact hl.one hstart hlt
  · intro e he hexpected
    obtain ⟨after, before, hh, -, hfits⟩ := hl.at he
    have hfree := hunused e he hexpected before after hh
    by_cases hcurrent : e.expected = revision start before
    · exact Or.inl (hfits.wins (hrivals e he hexpected).1 hfree hcurrent)
    · exact Or.inr (hfits.loses (hrivals e he hexpected).1 hfree hcurrent)

/-- A revision that was reached is the current one, or a call that named it has committed. -/
theorem Legal.reached (hl : Legal used start h) {r : Nat} (hstart : start ≤ r)
    (hr : r ≤ revision start h) :
    revision start h = r ∨ ∃ e ∈ h, e.commits = true ∧ e.expected = r := by
  by_cases hlt : r < revision start h
  · have hone := hl.one hstart hlt
    obtain ⟨e, he, hp⟩ := List.countP_pos_iff.mp (hone.symm ▸ Nat.one_pos)
    simp only [Bool.and_eq_true, decide_eq_true_eq] at hp
    exact Or.inr ⟨e, he, hp⟩
  · exact Or.inl (Nat.le_antisymm (Nat.le_of_not_lt hlt) hr)

/-- Identical calls under one key, answered once the revision they name was reached: one
commits, the others are repetitions. -/
theorem Legal.twins (hl : Legal used start h) {r : Nat} (hstart : start ≤ r) {k : κ} {d : δ}
    (hk : ¬used k)
    (htwins : ∀ e ∈ h, e.expected = r ∨ e.record = k →
      e.valid = true ∧ e.expected = r ∧ e.record = k ∧ e.digest = d)
    (hreached : ∀ after e before, h = after ++ e :: before → e.record = k →
      r ≤ revision start before)
    (hsome : ∃ e ∈ h, e.record = k) :
    commitsAt r h = 1 ∧
      ∀ e ∈ h, e.record = k → e.commits = true ∨ e.outcome = .replayed := by
  -- a twin is carried out if none was before it, and repeats the one that was otherwise
  have hanswer : ∀ e ∈ h, e.record = k → e.commits = true ∨
      e.outcome = .replayed ∧ ∃ e' ∈ h, e'.commits = true ∧ e'.record = k := by
    intro e he hrecord
    obtain ⟨hvalid, hexpected, -, hdigest⟩ := htwins e he (Or.inr hrecord)
    obtain ⟨after, before, hh, hbefore, hfits⟩ := hl.at he
    have hmem : ∀ e' ∈ before, e' ∈ h := fun e' he' =>
      hh ▸ List.mem_append_right _ (List.mem_cons_of_mem _ he')
    by_cases hcommitted : ∃ e' ∈ before, e'.commits = true ∧ e'.record = k
    · obtain ⟨e', he', hc, hk'⟩ := hcommitted
      refine Or.inr ⟨hfits.repeats hvalid ⟨e', he', hc, hk'.trans hrecord.symm, ?_⟩, e',
        hmem e' he', hc, hk'⟩
      rw [(htwins e' (hmem e' he') (Or.inr hk')).2.2.2, hdigest]
    · have hnone : ∀ e' ∈ before, e'.commits = true → e'.record ≠ k :=
        fun e' he' hc hk' => hcommitted ⟨e', he', hc, hk'⟩
      refine Or.inl (hfits.wins hvalid ⟨hrecord ▸ hk, hrecord ▸ hnone⟩ ?_)
      obtain hr | ⟨e', he', hc, hr⟩ := hbefore.reached hstart (hreached after e before hh hrecord)
      · rw [hexpected, hr]
      · exact absurd (htwins e' (hmem e' he') (Or.inl hr)).2.2.1 (hnone e' he' hc)
  refine ⟨?_, fun e he hrecord => (hanswer e he hrecord).imp_right And.left⟩
  obtain ⟨e, he, hc, hrecord⟩ : ∃ e ∈ h, e.commits = true ∧ e.record = k := by
    obtain ⟨e, he, hrecord⟩ := hsome
    obtain hc | ⟨-, hother⟩ := hanswer e he hrecord
    · exact ⟨e, he, hc, hrecord⟩
    · exact hother
  have hpast := (hl.past he hc).2
  rw [(htwins e he (Or.inr hrecord)).2.1] at hpast
  exact hl.one hstart (by exact_mod_cast hpast)

end Revisions
