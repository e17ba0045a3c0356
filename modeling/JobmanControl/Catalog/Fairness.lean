import JobmanControl.Catalog.Placement
import JobmanControl.Library.Rotation

/-!
Whose turn it is. A dispatch takes the namespace that was served least recently among those
that have a job to dispatch, and from it the oldest such job. A namespace that goes on having
one is passed over at most once by each other namespace.
-/

namespace JobmanControl

open Relational Lifecycle Lifecycle.Board

/-! The order of the claim. -/

def served : Option Time → Nat
  | none => 0
  | some t => t + 1

/-- The first row was served earlier, or its job comes first. -/
def ClaimedFirst (a b : (Id × JobRow) × PolicyRow) : Prop :=
  served a.2.lastDispatchedAt < served b.2.lastDispatchedAt ∨
    served a.2.lastDispatchedAt = served b.2.lastDispatchedAt ∧
      (a.1.2.createdAt < b.1.2.createdAt ∨ a.1.2.createdAt = b.1.2.createdAt ∧ a.1.1 ≤ b.1.1)

theorem then_ne_gt_iff (x y : Ordering) : x.then y ≠ .gt ↔ x = .lt ∨ x = .eq ∧ y ≠ .gt := by
  cases x <;> simp [Ordering.then]

theorem Db.claimOrder_iff (a b : (Id × JobRow) × PolicyRow) :
    Db.claimOrder a b = true ↔ ClaimedFirst a b := by
  simp only [Db.claimOrder, decide_eq_true_eq, then_ne_gt_iff, ClaimedFirst, compare_lt_iff_lt,
    compare_eq_iff_eq, ne_eq, compare_gt_iff_gt, not_lt]
  cases a.2.lastDispatchedAt with
  | none =>
      cases b.2.lastDispatchedAt with
      | none => simp [served]
      | some t => simp [served]
  | some s =>
      cases b.2.lastDispatchedAt with
      | none => simp [served]
      | some t => simp [served, compare_lt_iff_lt]

theorem ClaimedFirst.total (a b : (Id × JobRow) × PolicyRow) :
    ClaimedFirst a b ∨ ClaimedFirst b a := by
  unfold ClaimedFirst
  grind

theorem ClaimedFirst.trans {a b d : (Id × JobRow) × PolicyRow} (h : ClaimedFirst a b)
    (h' : ClaimedFirst b d) : ClaimedFirst a d := by
  unfold ClaimedFirst at *
  grind

/-- A job that a dispatch could take. -/
structure Db.Eligible (db : Db) (codec : Codec) (env : Env) (j : Id) (job : JobRow)
    (policy : PolicyRow) : Prop where
  jobRow : db.jobs.get? j = some job
  policyRow : db.policies.get? job.namespaceId = some policy
  candidate : (db.candidate codec env j job policy).isSome = true

section Claim

variable {codec : Codec} {env : Env} {db db' : Db} {c : AssignmentCandidate}

theorem Db.Eligible.mem_claimRows {j : Id} {job : JobRow} {policy : PolicyRow}
    (h : db.Eligible codec env j job policy) :
    ((j, job), policy) ∈ db.claimRows.filter fun row =>
      (db.candidate codec env row.1.1 row.1.2 row.2).isSome := by
  refine List.mem_filter.mpr ⟨List.mem_filterMap.mpr ⟨(j, job), ?_, ?_⟩, h.candidate⟩
  · exact (Table.get?_eq_some_iff _ _ _).mp h.jobRow
  · rw [h.policyRow]
    rfl

theorem Db.claimAssignmentCandidate_first (h : db.claimAssignmentCandidate codec env = some c) :
    ∃ job policy target generation workload agent,
      c.Chosen codec env db job policy target generation workload agent ∧
      (∃ name, db.namespaces.get? c.namespaceId = some name) ∧
      ∀ j' job' policy', db.Eligible codec env j' job' policy' →
        ClaimedFirst ((c.jobId, job), policy) ((j', job'), policy') := by
  obtain ⟨⟨⟨j, job⟩, policy⟩, hfirst, hcandidate⟩ := Option.bind_eq_some_iff.mp h
  have hmem := (List.mem_filter.mp (firstBy_mem hfirst)).1
  obtain ⟨entry, hentry, heq⟩ := List.mem_filterMap.mp hmem
  obtain ⟨policy', hpolicy, heq'⟩ := Option.map_eq_some_iff.mp heq
  cases heq'
  have hjob := (Table.get?_eq_some_iff _ _ _).mpr hentry
  obtain ⟨target, generation, workload, agent, hchosen⟩ := candidate_chosen hjob hpolicy hcandidate
  have hfields : (∃ name, db.namespaces.get? c.namespaceId = some name) ∧ c.jobId = j := by
    simp only [Db.candidate, Option.bind_eq_bind, Option.bind_eq_some_iff, Option.guard_eq_some',
      Option.pure_def, Option.some.injEq] at hcandidate
    obtain ⟨name, hname, _, -, _, -, _, -, _, -, _, -, _, -, _, -, _, -, _, -, _, -, rfl⟩ :=
      hcandidate
    exact ⟨⟨name, hname⟩, rfl⟩
  refine ⟨job, policy, target, generation, workload, agent, hchosen, hfields.1, ?_⟩
  intro j' job' policy' heligible
  rw [hfields.2, ← Db.claimOrder_iff]
  refine firstBy_le (fun a b => ?_) (fun a b d => ?_) hfirst heligible.mem_claimRows
  · rw [Db.claimOrder_iff, Db.claimOrder_iff]
    exact ClaimedFirst.total a b
  · rw [Db.claimOrder_iff, Db.claimOrder_iff, Db.claimOrder_iff]
    exact ClaimedFirst.trans

theorem ClaimedFirst.served_le {a b : (Id × JobRow) × PolicyRow} (h : ClaimedFirst a b) :
    served a.2.lastDispatchedAt ≤ served b.2.lastDispatchedAt := by
  obtain hlt | ⟨heq, -⟩ := h
  · exact Nat.le_of_lt hlt
  · exact Nat.le_of_eq heq

theorem ClaimedFirst.createdAt_le {a b : (Id × JobRow) × PolicyRow} (h : ClaimedFirst a b)
    (hsame : a.2 = b.2) : a.1.2.createdAt ≤ b.1.2.createdAt := by
  obtain hlt | ⟨-, hlt | ⟨heq, -⟩⟩ := h
  · rw [hsame] at hlt
    exact absurd hlt (Nat.lt_irrefl _)
  · exact Nat.le_of_lt hlt
  · exact Nat.le_of_eq heq

end Claim

/-! Runs of dispatches. -/

/-- A dispatch that took a job: the store it found, and the job. -/
structure Turn where
  before : Db
  env : Env
  ids : DispatchIds
  candidate : AssignmentCandidate

/-- Dispatches one after another, at increasing times, with any other calls on jobs between
them, and anything else that leaves the namespaces and their policies alone. -/
inductive Rotates (codec : Codec) : Db → List Turn → Db → Prop
  | done (db : Db) : Rotates codec db [] db
  | call {db db' : Db} {turns : List Turn} (env : Env) (operation : Operation) :
      (∀ ids, operation ≠ .reconcileOneAssignment ids) →
      Rotates codec (operation.apply codec env db) turns db' → Rotates codec db turns db'
  | elsewhere {db db₁ db' : Db} {turns : List Turn} : db₁.namespaces = db.namespaces →
      db₁.policies = db.policies → Rotates codec db₁ turns db' → Rotates codec db turns db'
  | turn {db db₁ db' : Db} {turns : List Turn} (env : Env) (ids : DispatchIds)
      (c : AssignmentCandidate) : db.claimAssignmentCandidate codec env = some c →
      reconcileOneAssignment codec env ids db = .ok (true, db₁) →
      (∀ later ∈ turns, env.now < later.env.now) →
      Rotates codec db₁ turns db' → Rotates codec db (⟨db, env, ids, c⟩ :: turns) db'

def Db.served (db : Db) (n : Id) : Nat :=
  JobmanControl.served ((db.policies.get? n).bind PolicyRow.lastDispatchedAt)

theorem Db.served_of_policy {db : Db} {n : Id} {policy : PolicyRow}
    (h : db.policies.get? n = some policy) :
    db.served n = JobmanControl.served policy.lastDispatchedAt := by
  rw [Db.served, h]
  rfl

section Turns

variable {codec : Codec} {env : Env} {ids : DispatchIds} {c : AssignmentCandidate} {db db' : Db}
  {turns : List Turn}

theorem served_of_turn (hclaim : db.claimAssignmentCandidate codec env = some c)
    (h : reconcileOneAssignment codec env ids db = .ok (true, db')) :
    db'.namespaces = db.namespaces ∧
      db'.served = Function.update db.served c.namespaceId (env.now + 1) := by
  obtain ⟨hfalse, -⟩ | ⟨c', job, policy, _, _, _, _, hclaim', hchosen, hdispatches⟩ :=
    reconcileOneAssignment_cases h
  · cases hfalse
  cases hclaim.symm.trans hclaim'
  refine ⟨?_, funext fun n => ?_⟩
  · obtain ⟨_, _, _, _, _, _, _, rfl⟩ := hdispatches.rest
    rfl
  · by_cases hn : n = c.namespaceId
    · subst hn
      rw [Function.update_self, Db.served, hdispatches.policy, if_pos rfl, hchosen.namespaceId,
        hchosen.policyRow]
      rfl
    · rw [Function.update_of_ne hn, Db.served, hdispatches.policy, if_neg hn]
      rfl

theorem Operation.apply_policies (codec : Codec) (env : Env) (operation : Operation) (db : Db)
    (h : ∀ ids, operation ≠ .reconcileOneAssignment ids) :
    (operation.apply codec env db).namespaces = db.namespaces ∧
      (operation.apply codec env db).policies = db.policies := by
  have hsettled := Settled.apply codec env operation db h
  exact ⟨congrArg Prod.fst hsettled.catalog, hsettled.policies⟩

namespace Rotates

theorem split {first rest : List Turn} (h : Rotates codec db (first ++ rest) db') :
    ∃ mid, Rotates codec db first mid ∧ Rotates codec mid rest db' := by
  generalize hturns : first ++ rest = turns at h
  induction h generalizing first with
  | done db =>
      obtain ⟨rfl, rfl⟩ := List.append_eq_nil_iff.mp hturns
      exact ⟨db, .done db, .done db⟩
  | call env operation hop hrest ih =>
      obtain ⟨mid, hfirst, hlast⟩ := ih hturns
      exact ⟨mid, .call env operation hop hfirst, hlast⟩
  | elsewhere hn hp hrest ih =>
      obtain ⟨mid, hfirst, hlast⟩ := ih hturns
      exact ⟨mid, .elsewhere hn hp hfirst, hlast⟩
  | @turn db _ _ _ env ids c hclaim hok htimes hrest ih =>
      cases first with
      | nil =>
          obtain rfl : rest = _ := hturns
          exact ⟨db, .done db, .turn env ids c hclaim hok htimes hrest⟩
      | cons turn first =>
          obtain ⟨rfl, rfl⟩ := List.cons.inj hturns
          obtain ⟨mid, hfirst, hlast⟩ := ih rfl
          exact ⟨mid, .turn env ids c hclaim hok
            (fun later hlater => htimes later (List.mem_append_left _ hlater)) hfirst, hlast⟩

theorem namespaces (h : Rotates codec db turns db') : db'.namespaces = db.namespaces := by
  induction h with
  | done db => rfl
  | @call db _ _ env operation hop hrest ih =>
      exact ih.trans (operation.apply_policies codec env db hop).1
  | elsewhere hn _ _ ih => exact ih.trans hn
  | turn env ids c hclaim hok _ _ ih => exact ih.trans (served_of_turn hclaim hok).1

theorem claimed (h : Rotates codec db turns db') {turn : Turn} (hturn : turn ∈ turns) :
    turn.before.claimAssignmentCandidate codec turn.env = some turn.candidate ∧
      turn.before.namespaces = db.namespaces := by
  induction h with
  | done db => cases hturn
  | @call db _ _ env operation hop hrest ih =>
      obtain ⟨hclaim, hsame⟩ := ih hturn
      exact ⟨hclaim, hsame.trans (operation.apply_policies codec env db hop).1⟩
  | elsewhere hn _ _ ih =>
      obtain ⟨hclaim, hsame⟩ := ih hturn
      exact ⟨hclaim, hsame.trans hn⟩
  | turn env ids c hclaim hok _ _ ih =>
      obtain rfl | hturn := List.mem_cons.mp hturn
      · exact ⟨hclaim, rfl⟩
      · obtain ⟨hclaim', hsame⟩ := ih hturn
        exact ⟨hclaim', hsame.trans (served_of_turn hclaim hok).1⟩

theorem served_lt {first rest : List Turn} (h : Rotates codec db first db')
    (hstart : ∀ n, ∀ turn ∈ first ++ rest, db.served n < turn.env.now + 1)
    (htimes : ∀ turn ∈ first, ∀ later ∈ rest, turn.env.now < later.env.now) :
    ∀ n, ∀ turn ∈ rest, db'.served n < turn.env.now + 1 := by
  induction h with
  | done db => exact hstart
  | @call db _ _ env operation hop hrest ih =>
      refine ih (fun n => ?_) htimes
      rw [Db.served, (operation.apply_policies codec env db hop).2]
      exact hstart n
  | elsewhere _ hp _ ih =>
      refine ih (fun n => ?_) htimes
      rw [Db.served, hp]
      exact hstart n
  | turn env ids c hclaim hok hnext _ ih =>
      refine ih (fun n turn hturn => ?_)
        fun turn hturn => htimes turn (List.mem_cons_of_mem _ hturn)
      rw [(served_of_turn hclaim hok).2, Function.update_apply]
      split
      · obtain hfirst | hrest := List.mem_append.mp hturn
        · exact Nat.succ_lt_succ (hnext turn hfirst)
        · exact Nat.succ_lt_succ (htimes _ List.mem_cons_self turn hrest)
      · exact hstart n turn (List.mem_cons_of_mem _ hturn)

theorem fair (h : Rotates codec db turns db') {n : Id}
    (hstart : ∀ m, ∀ turn ∈ turns, db.served m < turn.env.now + 1)
    (heligible : ∀ turn ∈ turns, ∃ j job policy, job.namespaceId = n ∧
      turn.before.Eligible codec turn.env j job policy) :
    Rotation.Fair n db.served
      (turns.map fun turn => (turn.candidate.namespaceId, turn.env.now + 1)) := by
  induction h with
  | done db => trivial
  | @call db _ _ env operation hop hrest ih =>
      have hserved : (operation.apply codec env db).served = db.served := by
        funext m
        rw [Db.served, (operation.apply_policies codec env db hop).2]
        rfl
      rw [hserved] at ih
      exact ih hstart heligible
  | @elsewhere db db₁ _ _ _ hp _ ih =>
      have hserved : db₁.served = db.served := by
        funext m
        rw [Db.served, hp]
        rfl
      rw [hserved] at ih
      exact ih hstart heligible
  | @turn db db₁ _ turns env ids c hclaim hok hnext _ ih =>
      obtain ⟨j, job, policy, rfl, hjob⟩ := heligible _ List.mem_cons_self
      obtain ⟨job', policy', _, _, _, _, hchosen, -, hfirst⟩ :=
        Db.claimAssignmentCandidate_first hclaim
      have hle := (hfirst j job policy hjob).served_le
      have hserved := (served_of_turn hclaim hok).2
      refine ⟨?_, hstart _ _ List.mem_cons_self, ?_⟩
      · rw [hchosen.namespaceId, Db.served_of_policy hchosen.policyRow,
          Db.served_of_policy hjob.policyRow]
        exact hle
      · rw [hserved] at ih
        refine ih (fun m turn hturn => ?_) fun turn hturn =>
          heligible turn (List.mem_cons_of_mem _ hturn)
        rw [Function.update_apply]
        split
        · exact Nat.succ_lt_succ (hnext turn hturn)
        · exact hstart m turn (List.mem_cons_of_mem _ hturn)

theorem increasing (h : Rotates codec db turns db') :
    turns.Pairwise fun turn later => turn.env.now < later.env.now := by
  induction h with
  | done => exact .nil
  | call _ _ _ _ ih | elsewhere _ _ _ ih => exact ih
  | turn _ _ _ _ _ hnext _ ih => exact .cons hnext ih

end Rotates

/-- In a run of dispatches that are later than all there were before it, a namespace that has
a job to dispatch at as many consecutive turns as there are namespaces is served at one of
them; and every turn takes the oldest job that its namespace could have dispatched. -/
theorem dispatches_rotate {first window rest : List Turn}
    (h : Rotates codec db (first ++ window ++ rest) db')
    (hstart : ∀ n policy s, db.policies.get? n = some policy → policy.lastDispatchedAt = some s →
      ∀ turn ∈ first ++ window ++ rest, s < turn.env.now) :
    (∀ n name, db.namespaces.get? n = some name → window.length = db.namespaces.entries.length →
      (∀ turn ∈ window, ∃ j job policy, job.namespaceId = n ∧
        turn.before.Eligible codec turn.env j job policy) →
      ∃ turn ∈ window, turn.candidate.namespaceId = n) ∧
    ∀ turn ∈ first ++ window ++ rest, ∃ chosen, chosen.namespaceId = turn.candidate.namespaceId ∧
      turn.before.jobs.get? turn.candidate.jobId = some chosen ∧
      ∀ j job policy, turn.before.Eligible codec turn.env j job policy →
        job.namespaceId = turn.candidate.namespaceId → chosen.createdAt ≤ job.createdAt := by
  refine ⟨?_, ?_⟩
  · intro n name hname hlength heligible
    have hserved : ∀ m, ∀ turn ∈ first ++ window ++ rest, db.served m < turn.env.now + 1 := by
      intro m turn hturn
      cases hpolicy : db.policies.get? m with
      | none =>
          rw [Db.served, hpolicy]
          exact Nat.succ_pos _
      | some policy =>
          rw [Db.served, hpolicy]
          cases hlast : policy.lastDispatchedAt with
          | none =>
              rw [Option.bind_some, hlast]
              exact Nat.succ_pos _
          | some s =>
              rw [Option.bind_some, hlast]
              exact Nat.succ_lt_succ (hstart m policy s hpolicy hlast turn hturn)
    have hincreasing := h.increasing
    rw [List.append_assoc] at h hserved hincreasing
    obtain ⟨mid, hfirst, hmid⟩ := h.split
    obtain ⟨_, hwindow, -⟩ := hmid.split
    have hmidServed := hfirst.served_lt hserved (List.pairwise_append.mp hincreasing).2.2
    have hfair := hwindow.fair (fun m turn hturn =>
      hmidServed m turn (List.mem_append_left _ hturn)) heligible
    have hin := hfair.served (db.namespaces.entries.map Prod.fst) ?_ ?_ ?_
    · simp only [List.map_map, List.mem_map, Function.comp_apply] at hin
      exact hin
    · exact List.mem_map.mpr ⟨(n, name), (Table.get?_eq_some_iff _ _ _).mp hname, rfl⟩
    · intro m hm
      simp only [List.map_map, List.mem_map, Function.comp_apply] at hm
      obtain ⟨turn, hturn, rfl⟩ := hm
      obtain ⟨hclaim, hsame⟩ := hwindow.claimed hturn
      obtain ⟨_, _, _, _, _, _, -, ⟨name, hstored⟩, -⟩ := Db.claimAssignmentCandidate_first hclaim
      rw [hsame, hfirst.namespaces] at hstored
      exact List.mem_map.mpr ⟨_, (Table.get?_eq_some_iff _ _ _).mp hstored, rfl⟩
    · rw [List.length_map, List.length_map, hlength]
  · intro turn hturn
    obtain ⟨chosen, policy, _, _, _, _, hchosen, -, hfirst⟩ :=
      Db.claimAssignmentCandidate_first (h.claimed hturn).1
    refine ⟨chosen, hchosen.namespaceId.symm, hchosen.jobRow, ?_⟩
    intro j job policy' hjob hsame
    have hpolicy := hjob.policyRow
    rw [hsame, hchosen.namespaceId, hchosen.policyRow] at hpolicy
    exact (hfirst j job policy' hjob).createdAt_le (Option.some.inj hpolicy)

end Turns

namespace Sample

def pair {ρ : Type} (r r' : ρ) (k k' : Id) (h : k ≠ k') : Table Id ρ :=
  ⟨[(k, r), (k', r')], by simpa using h⟩

/-- Two namespaces with a target and an agent each. -/
def shared : Configuration where
  namespaces := pair "research" "teaching" 1 11 (by decide)
  policies := pair policy policy 1 11 (by decide)
  recovery := ⟨false, 1⟩
  targets := pair ⟨1, "cluster", .active, some 4, .host, 1, 0, 0⟩
    ⟨11, "cluster", .active, some 14, .host, 1, 0, 0⟩ 3 13 (by decide)
  generations := pair
    ⟨1, 3, .subprocess, ["process"], [], [], [], [], none, 1, none, .onPrem⟩
    ⟨11, 13, .subprocess, ["process"], [], [], [], [], none, 1, none, .onPrem⟩ 4 14 (by decide)
  partitions := .empty
  agents := pair
    ⟨1, 3, 4, 2, .active, true, some 0, none, "linux", "amd64", [.subprocess], ["process"], [], 0,
      0, "1.0", ["jobman/v1alpha1"], "node", "user", "registration", 0⟩
    ⟨11, 13, 14, 2, .active, true, some 0, none, "linux", "amd64", [.subprocess], ["process"], [],
      0, 0, "1.0", ["jobman/v1alpha1"], "node", "user", "registration", 0⟩ 5 15 (by decide)
  sessions := pair ⟨5, 1000, none, 1, "session", none, none, 0⟩
    ⟨15, 1000, none, 1, "other", none, none, 0⟩ 6 16 (by decide)
  logStreams := .empty

def crowded : Db :=
  Db.empty.run codec
    [⟨env 0, .configure shared⟩,
      ⟨env 1, .submitJob authorization "submit-job-1" 20 21 (submission "first")⟩,
      ⟨env 2, .submitJob authorization "submit-job-2" 22 23 (submission "second")⟩,
      ⟨env 3, .submitJob (.ok ⟨11, 2, false⟩) "submit-job-3" 24 25
        { submission "third" with namespaceName := "teaching" }⟩]

def relieved : Db := atomically (reconcileOneAssignment codec (env 4) ⟨40, 41, 42, 43⟩) crowded

end Sample

/-- The third job is of a namespace that was never served, and is dispatched second. -/
theorem dispatches_rotate_pair : ∃ window db', Rotates Sample.codec Sample.crowded window db' ∧
    window.length = 2 ∧ ∃ turn ∈ window, turn.candidate.namespaceId = 11 := by
  have hfirst : (Sample.crowded.claimAssignmentCandidate Sample.codec (Sample.env 4)).isSome =
      true := by decide
  have hsecond : (Sample.relieved.claimAssignmentCandidate Sample.codec (Sample.env 5)).isSome =
      true := by decide
  obtain ⟨c, hc⟩ := Option.isSome_iff_exists.mp hfirst
  obtain ⟨c', hc'⟩ := Option.isSome_iff_exists.mp hsecond
  have hok : (reconcileOneAssignment Sample.codec (Sample.env 4) ⟨40, 41, 42, 43⟩
      Sample.crowded).toOption.map Prod.fst = some true := by decide
  have hok' : (reconcileOneAssignment Sample.codec (Sample.env 5) ⟨50, 51, 52, 53⟩
      Sample.relieved).toOption.map Prod.fst = some true := by decide
  obtain ⟨⟨_, db₁⟩, hdb₁, rfl⟩ := Option.map_eq_some_iff.mp hok
  obtain ⟨⟨_, db₂⟩, hdb₂, rfl⟩ := Option.map_eq_some_iff.mp hok'
  rw [toOption_eq_some_iff] at hdb₁ hdb₂
  have hrelieved : Sample.relieved = db₁ := atomically_of_ok hdb₁
  have hrun : Rotates Sample.codec Sample.crowded
      [⟨Sample.crowded, Sample.env 4, ⟨40, 41, 42, 43⟩, c⟩,
        ⟨Sample.relieved, Sample.env 5, ⟨50, 51, 52, 53⟩, c'⟩] db₂ := by
    refine .turn _ _ c hc hdb₁ (by simp [Sample.env]) ?_
    rw [← hrelieved]
    exact .turn _ _ c' hc' hdb₂ (by simp) (.done _)
  have heligible : ∀ db now, (db = Sample.crowded ∧ now = 4) ∨ (db = Sample.relieved ∧ now = 5) →
      ∃ j job policy, job.namespaceId = 11 ∧
        db.Eligible Sample.codec (Sample.env now) j job policy := by
    intro db now hcase
    have hcandidate : ((db.jobs.get? 24).bind fun job => (db.policies.get? job.namespaceId).bind
        fun policy => (db.candidate Sample.codec (Sample.env now) 24 job policy).map fun c =>
          c.namespaceId) = some 11 := by
      obtain ⟨rfl, rfl⟩ | ⟨rfl, rfl⟩ := hcase <;> decide
    obtain ⟨job, hjob, hrest⟩ := Option.bind_eq_some_iff.mp hcandidate
    obtain ⟨policy, hpolicy, hrest⟩ := Option.bind_eq_some_iff.mp hrest
    obtain ⟨candidate, hcandidate, hnamespace⟩ := Option.map_eq_some_iff.mp hrest
    obtain ⟨_, _, _, _, hchosen⟩ := candidate_chosen hjob hpolicy hcandidate
    exact ⟨24, job, policy, hchosen.namespaceId.symm.trans hnamespace, hjob, hpolicy,
      Option.isSome_iff_exists.mpr ⟨candidate, hcandidate⟩⟩
  have hnever : ∀ n policy s, Sample.crowded.policies.get? n = some policy →
      policy.lastDispatchedAt = some s → False := by
    have hall : ∀ entry ∈ Sample.crowded.policies.entries, entry.2.lastDispatchedAt = none := by
      decide
    intro n policy s hpolicy hlast
    cases (hall (n, policy) ((Table.get?_eq_some_iff _ _ _).mp hpolicy)).symm.trans hlast
  have hcount : Sample.crowded.namespaces.entries.length = 2 := by decide
  refine ⟨_, db₂, hrun, rfl, ?_⟩
  refine (@dispatches_rotate _ _ _ [] _ [] hrun fun n policy s hp hl =>
    (hnever n policy s hp hl).elim).1 11 "teaching" (by decide) hcount.symm ?_
  intro turn hturn
  simp only [List.mem_cons, List.not_mem_nil, or_false] at hturn
  obtain rfl | rfl := hturn
  · exact heligible _ _ (Or.inl ⟨rfl, rfl⟩)
  · exact heligible _ _ (Or.inr ⟨rfl, rfl⟩)

end JobmanControl
