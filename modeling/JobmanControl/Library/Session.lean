import JobmanControl.Library.System
import JobmanControl.Library.Table

/-!
Transactions that take several steps and interleave. A session locks rows as its
statements ask for them, reads the committed state at each of its steps and
publishes its writes at once when it commits. A statement waits while another
session holds a row it wants, and no commit changes a row another session holds.
-/

namespace Interleaving

open Relational

/-- What the transactions over a state `σ` do. Sessions have states `S` and are
started by requests `R`; calls `C` are transactions that take one step; `κ` names
the rows that can be locked. -/
structure Protocol (σ S R C κ : Type) where
  call : C → σ → σ
  start : R → S
  /-- The rows the next statement locks, when the given rows are locked by others. -/
  wants : (κ → Bool) → σ → S → List κ
  /-- What the session knows after its next statement. -/
  advance : (κ → Bool) → σ → S → S
  commit : S → σ → Option σ
  /-- The row is the same in both states. -/
  same : κ → σ → σ → Bool

structure Session (S κ : Type) where
  state : S
  held : List κ

structure World (σ S κ : Type) where
  committed : σ
  sessions : Table Nat (Session S κ)

inductive Action (R C : Type)
  | call (call : C)
  | start (session : Nat) (request : R)
  | advance (session : Nat)
  | commit (session : Nat)
  | rollback (session : Nat)

variable {σ S R C κ : Type}

namespace World

def without (w : World σ S κ) (i : Nat) : Table Nat (Session S κ) :=
  w.sessions.deleteWhere fun n _ => n = i

theorem get?_without (w : World σ S κ) (i n : Nat) :
    (w.without i).get? n = if n = i then none else w.sessions.get? n := by
  rw [without, Table.get?_deleteWhere]
  cases w.sessions.get? n <;> by_cases hn : n = i <;> simp [hn]

def HasRow (w : World σ S κ) (i : Nat) (k : κ) : Prop :=
  ∃ s, w.sessions.get? i = some s ∧ k ∈ s.held

variable [DecidableEq κ]

/-- The row is locked by a session other than the given one. -/
def others (w : World σ S κ) (i : Nat) (k : κ) : Bool :=
  w.sessions.any fun n s => n ≠ i && s.held.contains k

/-- No row is locked by two sessions. -/
def Exclusive (w : World σ S κ) : Prop :=
  ∀ i j s t k, w.sessions.get? i = some s → w.sessions.get? j = some t → k ∈ s.held → k ∈ t.held →
    i = j

theorem others_eq_false_iff (w : World σ S κ) (i : Nat) (k : κ) :
    w.others i k = false ↔ ∀ n s, w.sessions.get? n = some s → n ≠ i → k ∉ s.held := by
  simp [others, Table.any_eq_false_iff]

theorem others_eq_true_iff (w : World σ S κ) (i : Nat) (k : κ) :
    w.others i k = true ↔ ∃ n, n ≠ i ∧ w.HasRow n k := by
  simp only [others, Table.any_eq_true_iff, HasRow, Bool.and_eq_true, decide_eq_true_eq,
    List.contains_iff_mem]
  constructor
  · rintro ⟨n, s, hs, hn, hk⟩
    exact ⟨n, hn, s, hs, hk⟩
  · rintro ⟨n, hn, s, hs, hk⟩
    exact ⟨n, s, hs, hn, hk⟩

end World

namespace Protocol

section Step

variable (P : Protocol σ S R C κ)

/-- Every row held by a session other than `i` is the same in the new state. -/
def respects (w : World σ S κ) (i : Option Nat) (new : σ) : Bool :=
  !w.sessions.any fun n s => some n ≠ i && s.held.any fun k => !P.same k w.committed new

theorem respects_iff (w : World σ S κ) (i : Option Nat) (new : σ) :
    P.respects w i new = true ↔ ∀ n s, w.sessions.get? n = some s → some n ≠ i →
      ∀ k ∈ s.held, P.same k w.committed new = true := by
  simp [respects, Table.any_eq_false_iff]

variable [DecidableEq κ]

def next (w : World σ S κ) : Action R C → Option (World σ S κ)
  | .call c =>
      if P.respects w none (P.call c w.committed) then
        some { w with committed := P.call c w.committed }
      else none
  | .start i r => (w.sessions.insert? i ⟨P.start r, []⟩).map fun sessions =>
      { w with sessions := sessions }
  | .advance i => do
      let s ← w.sessions.get? i
      let wanted := P.wants (w.others i) w.committed s.state
      if wanted.any (w.others i) then none
      else
        some { w with
          sessions := w.sessions.modify i fun s =>
            ⟨P.advance (w.others i) w.committed s.state, s.held ++ wanted⟩ }
  | .commit i => do
      let s ← w.sessions.get? i
      let new ← P.commit s.state w.committed
      if P.respects w (some i) new then some ⟨new, w.without i⟩ else none
  | .rollback i => do
      let _ ← w.sessions.get? i
      some { w with sessions := w.without i }

def Step (w : World σ S κ) (a : Action R C) (w' : World σ S κ) : Prop := P.next w a = some w'

end Step

variable [DecidableEq κ] {P : Protocol σ S R C κ} {w w' : World σ S κ}

theorem step_call {c : C} (h : P.Step w (.call c) w') :
    w' = { w with committed := P.call c w.committed } ∧
      ∀ n s, w.sessions.get? n = some s → ∀ k ∈ s.held,
        P.same k w.committed (P.call c w.committed) = true := by
  simp only [Step, next] at h
  split at h
  · rename_i hrespects
    cases h
    exact ⟨rfl, fun n s hs => (P.respects_iff w none _).mp hrespects n s hs (by simp)⟩
  · cases h

theorem step_start {i : Nat} {r : R} (h : P.Step w (.start i r) w') :
    w'.committed = w.committed ∧ w.sessions.get? i = none ∧
      ∀ n, w'.sessions.get? n = if n = i then some ⟨P.start r, []⟩ else w.sessions.get? n := by
  simp only [Step, next, Option.map_eq_some_iff] at h
  obtain ⟨sessions, hinsert, rfl⟩ := h
  exact ⟨rfl, Table.insert?_free hinsert, Table.get?_insert hinsert⟩

theorem step_advance {i : Nat} (h : P.Step w (.advance i) w') :
    w'.committed = w.committed ∧ ∃ s, w.sessions.get? i = some s ∧
      (∀ k ∈ P.wants (w.others i) w.committed s.state, w.others i k = false) ∧
      ∀ n, w'.sessions.get? n =
        if n = i then
          some ⟨P.advance (w.others i) w.committed s.state,
            s.held ++ P.wants (w.others i) w.committed s.state⟩
        else w.sessions.get? n := by
  simp only [Step, next, Option.bind_eq_bind, Option.bind_eq_some_iff,
    Option.ite_none_left_eq_some, Option.some.injEq] at h
  obtain ⟨s, hs, hfree, rfl⟩ := h
  refine ⟨rfl, s, hs, by simpa using hfree, ?_⟩
  intro n
  rw [Table.get?_modify]
  split
  · rename_i hn
    rw [hn, hs]
    rfl
  · rfl

theorem step_commit {i : Nat} (h : P.Step w (.commit i) w') :
    ∃ s, w.sessions.get? i = some s ∧ P.commit s.state w.committed = some w'.committed ∧
      (∀ n t, w.sessions.get? n = some t → n ≠ i → ∀ k ∈ t.held,
        P.same k w.committed w'.committed = true) ∧
      ∀ n, w'.sessions.get? n = if n = i then none else w.sessions.get? n := by
  simp only [Step, next, Option.bind_eq_bind, Option.bind_eq_some_iff,
    Option.ite_none_right_eq_some, Option.some.injEq] at h
  obtain ⟨s, hs, new, hnew, hrespects, rfl⟩ := h
  refine ⟨s, hs, hnew, ?_, w.get?_without i⟩
  intro n t ht hne
  exact (P.respects_iff w (some i) new).mp hrespects n t ht (by simpa using hne)

theorem step_rollback {i : Nat} (h : P.Step w (.rollback i) w') :
    w'.committed = w.committed ∧ ∃ s, w.sessions.get? i = some s ∧
      ∀ n, w'.sessions.get? n = if n = i then none else w.sessions.get? n := by
  simp only [Step, next, Option.bind_eq_bind, Option.bind_eq_some_iff, Option.some.injEq] at h
  obtain ⟨s, hs, rfl⟩ := h
  exact ⟨rfl, s, hs, w.get?_without i⟩

/-- A row stays locked until its session ends. -/
theorem Step.hasRow {a : Action R C} (h : P.Step w a w') {n : Nat} {k : κ}
    (hrow : w.HasRow n k) : w'.HasRow n k ∨ a = .commit n ∨ a = .rollback n := by
  obtain ⟨s, hs, hk⟩ := hrow
  cases a with
  | call c =>
      obtain ⟨rfl, -⟩ := step_call h
      exact Or.inl ⟨s, hs, hk⟩
  | start i r =>
      obtain ⟨-, hfree, hget⟩ := step_start h
      refine Or.inl ⟨s, ?_, hk⟩
      rw [hget, if_neg]
      · exact hs
      · rintro rfl
        rw [hfree] at hs
        cases hs
  | advance i =>
      obtain ⟨-, u, hu, -, hget⟩ := step_advance h
      by_cases hn : n = i
      · subst hn
        cases hs.symm.trans hu
        exact Or.inl ⟨_, by rw [hget, if_pos rfl], List.mem_append_left _ hk⟩
      · exact Or.inl ⟨s, by rw [hget, if_neg hn]; exact hs, hk⟩
  | commit i =>
      obtain ⟨-, -, -, -, hget⟩ := step_commit h
      by_cases hn : n = i
      · exact Or.inr (Or.inl (by rw [hn]))
      · exact Or.inl ⟨s, by rw [hget, if_neg hn]; exact hs, hk⟩
  | rollback i =>
      obtain ⟨-, -, -, hget⟩ := step_rollback h
      by_cases hn : n = i
      · exact Or.inr (Or.inr (by rw [hn]))
      · exact Or.inl ⟨s, by rw [hget, if_neg hn]; exact hs, hk⟩

/-- No step hands out a row that is locked. -/
theorem Step.exclusive {a : Action R C} (h : P.Step w a w') (hex : w.Exclusive) :
    w'.Exclusive := by
  cases a with
  | call c =>
      obtain ⟨rfl, -⟩ := step_call h
      exact hex
  | start i r =>
      obtain ⟨-, -, hget⟩ := step_start h
      intro n m s t k hs ht hks hkt
      rw [hget] at hs ht
      split at hs
      · cases hs
        cases hks
      · split at ht
        · cases ht
          cases hkt
        · exact hex n m s t k hs ht hks hkt
  | advance i =>
      obtain ⟨-, u, hu, hfree, hget⟩ := step_advance h
      -- A row of the advancing session is not held by any other session.
      have hown : ∀ n s k, w.sessions.get? n = some s → n ≠ i → k ∈ s.held →
          k ∉ u.held ++ P.wants (w.others i) w.committed u.state := by
        intro n s k hs hn hk hmem
        rcases List.mem_append.mp hmem with hheld | hwanted
        · exact hn (hex n i s u k hs hu hk hheld)
        · exact (w.others_eq_false_iff i k).mp (hfree k hwanted) n s hs hn hk
      intro n m s t k hs ht hks hkt
      rw [hget] at hs ht
      split at hs <;> rename_i hn
      · split at ht <;> rename_i hm
        · rw [hn, hm]
        · cases hs
          exact absurd hks (hown m t k ht hm hkt)
      · split at ht
        · cases ht
          exact absurd hkt (hown n s k hs hn hks)
        · exact hex n m s t k hs ht hks hkt
  | commit i =>
      obtain ⟨-, -, -, -, hget⟩ := step_commit h
      intro n m s t k hs ht hks hkt
      rw [hget, Option.ite_none_left_eq_some] at hs ht
      exact hex n m s t k hs.2 ht.2 hks hkt
  | rollback i =>
      obtain ⟨-, -, -, hget⟩ := step_rollback h
      intro n m s t k hs ht hks hkt
      rw [hget, Option.ite_none_left_eq_some] at hs ht
      exact hex n m s t k hs.2 ht.2 hks hkt

/-- The committed state and every open session satisfy their part of an invariant. -/
structure Holds (I : σ → Prop) (Q : σ → Session S κ → Prop) (w : World σ S κ) : Prop where
  committed : I w.committed
  sessions : ∀ i s, w.sessions.get? i = some s → Q w.committed s
  exclusive : w.Exclusive

/-- What is to be shown of a protocol whose allowed steps keep an invariant: each
step of a session, and what commits around it. -/
structure Maintains (P : Protocol σ S R C κ) (allowed : World σ S κ → Action R C → Prop)
    (I : σ → Prop) (Q : σ → Session S κ → Prop) : Prop where
  start : ∀ c r, I c → Q c ⟨P.start r, []⟩
  advance : ∀ w i s, Holds I Q w → allowed w (.advance i) → w.sessions.get? i = some s →
    Q w.committed ⟨P.advance (w.others i) w.committed s.state,
      s.held ++ P.wants (w.others i) w.committed s.state⟩
  call : ∀ w c, Holds I Q w → allowed w (.call c) → I (P.call c w.committed)
  frame_call : ∀ w c t, Holds I Q w → allowed w (.call c) → Q w.committed t →
    (∀ k ∈ t.held, P.same k w.committed (P.call c w.committed) = true) →
    Q (P.call c w.committed) t
  commit : ∀ w i s new, Holds I Q w → allowed w (.commit i) → w.sessions.get? i = some s →
    P.commit s.state w.committed = some new → I new
  frame_commit : ∀ w i s new t, Holds I Q w → allowed w (.commit i) →
    w.sessions.get? i = some s → P.commit s.state w.committed = some new → Q w.committed t →
    (∀ k ∈ t.held, P.same k w.committed new = true) → (∀ k ∈ t.held, k ∉ s.held) → Q new t

theorem Maintains.step {allowed : World σ S κ → Action R C → Prop} {I : σ → Prop}
    {Q : σ → Session S κ → Prop} (hm : P.Maintains allowed I Q) {a : Action R C}
    (hw : Holds I Q w) (hallow : allowed w a) (h : P.Step w a w') : Holds I Q w' := by
  have hex := h.exclusive hw.exclusive
  cases a with
  | call c =>
      obtain ⟨rfl, hsame⟩ := step_call h
      refine ⟨hm.call w c hw hallow, ?_, hex⟩
      intro n t ht
      exact hm.frame_call w c t hw hallow (hw.sessions n t ht) (hsame n t ht)
  | start i r =>
      obtain ⟨hc, -, hget⟩ := step_start h
      refine ⟨hc ▸ hw.committed, ?_, hex⟩
      intro n t ht
      rw [hget] at ht
      rw [hc]
      split at ht
      · cases ht
        exact hm.start _ r hw.committed
      · exact hw.sessions n t ht
  | advance i =>
      obtain ⟨hc, s, hs, -, hget⟩ := step_advance h
      refine ⟨hc ▸ hw.committed, ?_, hex⟩
      intro n t ht
      rw [hget] at ht
      rw [hc]
      split at ht
      · cases ht
        exact hm.advance w i s hw hallow hs
      · exact hw.sessions n t ht
  | commit i =>
      obtain ⟨s, hs, hnew, hsame, hget⟩ := step_commit h
      refine ⟨hm.commit w i s _ hw hallow hs hnew, ?_, hex⟩
      intro n t ht
      rw [hget, Option.ite_none_left_eq_some] at ht
      obtain ⟨hn, ht⟩ := ht
      refine hm.frame_commit w i s _ t hw hallow hs hnew (hw.sessions n t ht) (hsame n t ht hn) ?_
      intro k hk hks
      exact hn (hw.exclusive n i t s k ht hs hk hks)
  | rollback i =>
      obtain ⟨hc, -, -, hget⟩ := step_rollback h
      refine ⟨hc ▸ hw.committed, ?_, hex⟩
      intro n t ht
      rw [hget, Option.ite_none_left_eq_some] at ht
      exact hc ▸ hw.sessions n t ht.2

/-- An invariant of the allowed steps holds in every world they lead to. -/
theorem Maintains.holds {allowed : World σ S κ → Action R C → Prop} {I : σ → Prop}
    {Q : σ → Session S κ → Prop} (hm : P.Maintains allowed I Q) (hw : Holds I Q w)
    (h : Transition.Reaches P.Step allowed w w') : Holds I Q w' :=
  h.invariant hw fun _ _ _ hw hallow hstep => hm.step hw hallow hstep

omit [DecidableEq κ] in
theorem holds_quiet {I : σ → Prop} {Q : σ → Session S κ → Prop} {c : σ} (h : I c) :
    Holds I Q (⟨c, .empty⟩ : World σ S κ) :=
  ⟨h, (fun _ _ hs => by cases hs), fun _ _ _ _ _ hs => by cases hs⟩

end Protocol

end Interleaving
