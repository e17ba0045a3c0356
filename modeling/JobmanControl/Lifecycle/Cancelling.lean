import JobmanControl.Lifecycle.Statements

/-!
Cancelling the listed members of a group, one after another. A listed row is
current when it still describes the member's work; cancelling a current member
is one move and leaves the other members' rows, and so their currency, alone.
-/

namespace JobmanControl

open Relational Lifecycle Lifecycle.Board Function

variable {M : Licence}

variable {j a namespaceId : Id} {b : Board} {J : JobFacts} {R : RunFacts} {E : ExecutionFacts}
  {A : AssignmentFacts} {codec : Codec} {env : Env} {db db' : Db}

namespace Lifecycle

/-- The change concerns the work of one job only. -/
structure Only (j : Id) (b b' : Board) : Prop where
  edge : b'.edge = b.edge
  job : ∀ k, k ≠ j → b'.job k = b.job k
  bundle : ∀ k J r R e E a A, k ≠ j → b.Bundle k J r R e E a A → b'.Bundle k J r R e E a A

theorem only_putJob (b : Board) (j : Id) (J : JobFacts) : Only j b (b.putJob j J) := by
  have hjob : ∀ k, k ≠ j → (b.putJob j J).job k = b.job k := by
    intro k hk
    simp only [putJob, update_of_ne hk]
  refine ⟨rfl, hjob, ?_⟩
  intro k K r R e E a A hk hb
  exact { hb with job := (hjob k hk).trans hb.job }

theorem only_action (b : Board) (j : Id) (action : Id → Option ActionFacts) :
    Only j b { b with action := action } := by
  refine ⟨rfl, fun _ _ => rfl, ?_⟩
  intro k K r R e E a A _ hb
  exact { hb with }

theorem only_event (b : Board) (j : Id) (event : Id → Option EventFacts) :
    Only j b { b with event := event } := by
  refine ⟨rfl, fun _ _ => rfl, ?_⟩
  intro k K r R e E a A _ hb
  exact { hb with }

theorem Only.trans {b₁ b₂ : Board} (h : Only j b b₁) (h' : Only j b₁ b₂) : Only j b b₂ := by
  refine ⟨h'.edge.trans h.edge, fun k hk => (h'.job k hk).trans (h.job k hk), ?_⟩
  intro k K r R e E a A hk hb
  exact h'.bundle k K r R e E a A hk (h.bundle k K r R e E a A hk hb)

theorem Only.putNotice {b' : Board} (h : Only j b b') (n : Id) (N : Notice) :
    Only j b (b'.putNotice n N) := by
  refine ⟨h.edge, h.job, ?_⟩
  intro k K r R e E a A hk hb
  obtain ⟨h₁, h₂, h₃, h₄, h₅, h₆, h₇⟩ := h.bundle k K r R e E a A hk hb
  exact ⟨h₁, h₂, h₃, h₄, h₅, h₆, h₇⟩

theorem only_putBundle {r e : Id} {J' : JobFacts} {R' : RunFacts} {E' : ExecutionFacts}
    {A' : AssignmentFacts} (hb : b.Bundle j J r R e E a A) :
    Only j b (b.putBundle j J' r R' e E' a A') := by
  refine ⟨rfl, fun k hk => by simp only [putBundle, update_of_ne hk], ?_⟩
  intro k K r₁ R₁ e₁ E₁ a₁ A₁ hk hb₁
  have hr : r₁ ≠ r := by
    rintro rfl
    have hR := Option.some.inj (hb₁.run.symm.trans hb.run)
    exact hk (by rw [← hb₁.run_job, hR, hb.run_job])
  have he : e₁ ≠ e := by
    rintro rfl
    have hE := Option.some.inj (hb₁.execution.symm.trans hb.execution)
    exact hr (by rw [← hb₁.execution_run, hE, hb.execution_run])
  have ha : a₁ ≠ a := by
    rintro rfl
    have hA := Option.some.inj (hb₁.assignment.symm.trans hb.assignment)
    exact he (by rw [← hb₁.assignment_execution, hA, hb.assignment_execution])
  refine ⟨?_, ?_, ?_, ?_, hb₁.run_job, hb₁.execution_run, hb₁.assignment_execution⟩
  · simpa only [putBundle, update_of_ne hk] using hb₁.job
  · simpa only [putBundle, update_of_ne hr] using hb₁.run
  · simpa only [putBundle, update_of_ne he] using hb₁.execution
  · simpa only [putBundle, update_of_ne ha] using hb₁.assignment

/-- The listed row of an unfinished member says what the board says. -/
def Current (b : Board) (sibling : CollectionSibling) : Prop :=
  match sibling.execution with
  | none => ∃ J, b.job sibling.jobId = some J ∧ J.progress = .live .accepted
  | some x => ∃ J R E a A, b.Bundle sibling.jobId J x.runId R x.executionId E a A ∧
      x.phase = E.progress ∧ ∃ p, J.progress = .live p

theorem Current.only {b' : Board} {sibling : CollectionSibling} (h : Current b sibling)
    (ho : Only j b b') (hj : sibling.jobId ≠ j) : Current b' sibling := by
  unfold Current at h ⊢
  cases hx : sibling.execution with
  | none =>
      simp only [hx] at h ⊢
      rw [ho.job _ hj]
      exact h
  | some x =>
      simp only [hx] at h ⊢
      obtain ⟨J, R, E, a, A, hb, hphase, hlive⟩ := h
      exact ⟨J, R, E, a, A, ho.bundle _ _ _ _ _ _ _ _ hj hb, hphase, hlive⟩

end Lifecycle

def cancelledFacts (J : JobFacts) : JobFacts :=
  { J with progress := .terminal .cancelled, desiredState := .cancel, revision := J.revision + 1 }

theorem board_cancelJobRow {p : JobPhase} (h : cancelJobRow codec env j db = .ok db')
    (hJ : db.board.job j = some J) (hp : J.progress = .live p) :
    ∃ n, db.board.notice n = none ∧ db'.board =
      (db.board.putJob j (cancelledFacts J)).putNotice n ⟨j, .cancelled, J.revision + 1⟩ := by
  obtain ⟨old, changed, n, o, hfacts, hf, ho, hfree, hboard⟩ :=
    Db.board_updateJob_terminal h hJ hp (by rintro old changed - ⟨⟩; rfl)
  cases hf
  cases ho
  refine ⟨n, hfree, ?_⟩
  rw [hboard, ← hfacts]
  rfl

theorem board_withdrawAssignment {r e : Id} (hl : db.board.Linked)
    (hb : db.board.Bundle j J r R e E a A) (hoff : A.decision = .offered) :
    (withdrawAssignment e db).board =
      { db.board with assignment := update db.board.assignment a (some ⟨e, .withdrawn⟩) } := by
  have hassign : (withdrawAssignment e db).board.assignment =
      update db.board.assignment a (some ⟨e, .withdrawn⟩) := by
    funext k
    simp only [Db.board, withdrawAssignment, Table.get?_updateWhere, Option.map_map]
    by_cases hk : k = a
    · subst hk
      obtain ⟨row, hrow, hfacts⟩ := Db.board_assignment_eq_some.mp hb.assignment
      have hexec : row.executionId = e := by
        rw [← hb.assignment_execution, ← hfacts]
        rfl
      have hstate : row.state = .offered := by
        have hdec : row.state.decision = .offered := by
          rw [← hoff, ← hfacts]
          rfl
        cases hs : row.state <;> rw [hs] at hdec <;> first | rfl | cases hdec
      simp [hrow, hexec, hstate, AssignmentRow.facts, AssignmentState.decision]
    · rw [update_of_ne hk]
      cases hrow : db.assignments.get? k with
      | none => rfl
      | some row =>
          have hne : row.executionId ≠ e := by
            intro hexec
            refine hk (hl.assignment_unique k a e ?_ hb.assignmentLink)
            rw [assignmentLink_eq (Db.board_assignment hrow), ← hexec]
            rfl
          simp [hne]
  have hrest : ∀ t : Table Id AssignmentRow, ({ db with assignments := t } : Db).board =
      { db.board with assignment := ({ db with assignments := t } : Db).board.assignment } :=
    fun _ => rfl
  refine (hrest _).trans ?_
  rw [← hassign]
  rfl

theorem move_withdrawPlanned {x : SiblingExecution} (hc : Coupled db.board)
    (hb : db.board.Bundle j J x.runId R x.executionId E a A)
    (hplanned : E.progress = .live .planned) (h : withdrawPlanned codec env j x db = .ok db') :
    Move M db.board db'.board ∧ Only j db.board db'.board ∧
      ∃ J', db'.board.job j = some J' ∧ J'.progress = .terminal .cancelled := by
  have hphases := (hc.stage _ _ _ _ _ _ _ _ hb).planned hplanned
  have hJp : J.progress = .live .assigning := congrArg Phases.job hphases
  have hoff : A.decision = .offered := congrArg Phases.decision hphases
  simp only [withdrawPlanned, bind_ok_iff] at h
  obtain ⟨db₂, hexec, db₃, hrun, hjob⟩ := h
  have hboard₁ := board_withdrawAssignment hc.linked hb hoff
  obtain ⟨oldE, newE, hfE, hE', hboard₂⟩ := Db.board_updateExecution (E := E) hexec
    (by rw [hboard₁]; exact hb.execution)
  cases hE'
  obtain ⟨oldR, newR, hfR, hR', hboard₃⟩ := Db.board_updateRun (R := R) hrun
    (by rw [hboard₂, hboard₁]; exact hb.run)
  cases hR'
  obtain ⟨n, hfree, hboard₄⟩ := board_cancelJobRow (J := J) hjob
    (by rw [hboard₃, hboard₂, hboard₁]; exact hb.job) hJp
  have hfree' : db.board.notice n = none := by
    rw [hboard₃, hboard₂, hboard₁] at hfree
    exact hfree
  have hboard : db'.board =
      (db.board.putBundle j (cancelledFacts J) x.runId
        { R with progress := .terminal .cancelled, desiredState := .cancel } x.executionId
        { E with progress := .terminal ⟨.cancelled, .cancelledBeforeLaunch⟩ } a
        ⟨x.executionId, .withdrawn⟩).putNotice n ⟨j, .cancelled, J.revision + 1⟩ := by
    rw [hboard₄, hboard₃, hboard₂, hboard₁, ← hfE, ← hfR]
    rfl
  rw [hboard]
  refine ⟨?_, (only_putBundle hb).putNotice _ _, cancelledFacts J, ?_, rfl⟩
  · refine Move.finish hb ?_ ?_ hfree' (fun hkept => by cases hkept)
    · exact ⟨rfl, rfl, fun _ => rfl, rfl, rfl, fun _ => rfl, rfl, rfl, hb.assignment_execution.symm⟩
    · rw [hphases]
      exact .withdraw
  · simp [putNotice, putBundle]

theorem board_insertCancelAction {executionId agentId : Id}
    (h : insertCancelAction env namespaceId executionId agentId db = .ok db') :
    ∃ action, db'.board = { db.board with action := action } ∧ Moves M db.board db'.board ∧
      db'.board.Asked executionId := by
  unfold insertCancelAction at h
  split at h
  · rename_i hany
    cases h
    obtain ⟨n, row, hrow, hsame⟩ := (Table.any_eq_true_iff _ _).mp hany
    exact ⟨db.board.action, rfl, .refl, n, row.facts, Option.map_eq_some_iff.mpr ⟨row, hrow, rfl⟩,
      of_decide_eq_true hsame⟩
  · simp only [bind_ok_iff, need_ok_iff, pure_ok_iff] at h
    obtain ⟨actions, hinsert, rfl⟩ := h
    have hfree := Table.insert?_free hinsert
    have hboard : ({ db with actions := actions } : Db).board = { db.board with
        action := update db.board.action (env.actionId executionId)
          (some ⟨executionId, .pending⟩) } := by
      simp only [Db.board, Db.map_get?_insert DesiredActionRow.facts hinsert]
      rfl
    refine ⟨_, hboard, ?_, env.actionId executionId, ⟨executionId, .pending⟩, ?_, rfl⟩
    · rw [hboard]
      exact .single (.ask _ (Option.map_eq_none_iff.mpr hfree) rfl)
    · rw [hboard]
      exact update_self _ _ _

theorem moves_requestCancellation {x : SiblingExecution}
    (hb : db.board.Bundle j J x.runId R x.executionId E a A) (hengaged : Engaged (phases J R E A))
    (h : requestCancellation codec env namespaceId j x db = .ok db') :
    Moves M db.board db'.board ∧ Only j db.board db'.board ∧
      ∃ J', db'.board.job j = some J' ∧ J'.progress = J.progress ∧ J'.desiredState = .cancel := by
  obtain ⟨⟨p, hp⟩, -, -⟩ := hengaged.live
  simp only [requestCancellation, bind_ok_iff] at h
  obtain ⟨db₁, haction, db₂, hrun, hjob⟩ := h
  obtain ⟨action, hboard₁, hasking, hasked⟩ := board_insertCancelAction haction
  have hb₁ : db₁.board.Bundle j J x.runId R x.executionId E a A := by
    rw [hboard₁]
    exact { hb with }
  obtain ⟨oldR, newR, hfR, hR', hboard₂⟩ := Db.board_updateRun (R := R) hrun hb₁.run
  cases hR'
  obtain ⟨oldJ, newJ, hfJ, hJ', hboard₃⟩ := Db.board_updateJob_live (J := J) hjob
    (by rw [hboard₂]; exact hb₁.job) (by
      rintro old changed hold ⟨⟩
      refine Or.inr ?_
      have holdp : old.progress = .live p := by
        rw [← hp, ← hold]
        rfl
      rw [holdp]
      rfl)
  cases hJ'
  have hboard : db'.board =
      db₁.board.putBundle j { J with desiredState := .cancel, revision := J.revision + 1 } x.runId
        { R with desiredState := .cancel } x.executionId E a A := by
    have hE : update db₁.board.execution x.executionId (some E) = db₁.board.execution :=
      update_eq_self_iff.mpr hb₁.execution.symm
    have hA : update db₁.board.assignment a (some A) = db₁.board.assignment :=
      update_eq_self_iff.mpr hb₁.assignment.symm
    rw [hboard₃, hboard₂, ← hfJ, ← hfR, putBundle, hE, hA]
    rfl
  rw [hboard]
  refine ⟨hasking.tail (Move.advance hb₁
    ⟨rfl, rfl, fun _ => rfl, rfl, rfl, fun _ => rfl, rfl, rfl, rfl⟩ (.keep hengaged)
    fun _ => Or.inr hasked), ?_, _, update_self _ _ _, rfl, rfl⟩
  rw [hboard₁]
  exact (only_action db.board j action).trans (only_putBundle (hboard₁ ▸ hb₁))

/-- What cancelling does to a job: it ends if no agent has accepted it, and is asked to
stop otherwise. -/
def Cancels (J J' : JobFacts) : Prop :=
  ((J.progress = .live .accepted ∨ J.progress = .live .assigning) ∧
      J'.progress = .terminal .cancelled) ∨
    (J.progress ≠ .live .accepted ∧ J'.progress = J.progress ∧ J'.desiredState = .cancel)

/-- Cancelling a current member concerns it alone. -/
theorem moves_cancelCollectionSibling {sibling : CollectionSibling} (hc : Coupled db.board)
    (hcur : Current db.board sibling)
    (h : cancelCollectionSibling codec env namespaceId db sibling = .ok db') :
    Moves M db.board db'.board ∧ Only sibling.jobId db.board db'.board ∧
      ∃ J J', db.board.job sibling.jobId = some J ∧ db'.board.job sibling.jobId = some J' ∧
        Cancels J J' := by
  unfold Current at hcur
  unfold cancelCollectionSibling at h
  cases hx : sibling.execution with
  | none =>
      simp only [hx] at h hcur
      obtain ⟨J, hJ, hacc⟩ := hcur
      obtain ⟨n, hfree, hboard⟩ := board_cancelJobRow h hJ hacc
      rw [hboard]
      refine ⟨.single (Move.settle hJ hacc rfl rfl rfl hfree), (only_putJob _ _ _).putNotice _ _, J,
        cancelledFacts J, hJ, update_self _ _ _, Or.inl ⟨Or.inl hacc, rfl⟩⟩
  | some x =>
      simp only [hx] at h hcur
      obtain ⟨J, R, E, a, A, hb, hphase, p, hp⟩ := hcur
      have hstage := hc.stage _ _ _ _ _ _ _ _ hb
      by_cases hplanned : x.phase = .live .planned
      · rw [if_pos hplanned] at h
        have hE := hphase.symm.trans hplanned
        obtain ⟨hmove, honly, J', hJ', hended⟩ := move_withdrawPlanned hc hb hE h
        exact ⟨.single hmove, honly, J, J', hb.job, hJ',
          Or.inl ⟨Or.inr (congrArg Phases.job (hstage.planned hE)), hended⟩⟩
      · rw [if_neg hplanned] at h
        have hengaged : Engaged (phases J R E A) :=
          hstage.engaged_of_live ⟨p, hp⟩ fun hE => hplanned (hphase.trans hE)
        obtain ⟨hmoves, honly, J', hJ', hsame, hcancel⟩ := moves_requestCancellation hb hengaged h
        exact ⟨hmoves, honly, J, J', hb.job, hJ', Or.inr ⟨hstage.job_ne_accepted, hsame, hcancel⟩⟩

theorem moves_cancelSiblings (l : List CollectionSibling) (hc : Coupled db.board)
    (hcur : ∀ s ∈ l, Current db.board s) (hnodup : (l.map (·.jobId)).Nodup)
    (h : l.foldlM (cancelCollectionSibling codec env namespaceId) db = .ok db') :
    Moves M db.board db'.board ∧ db'.board.edge = db.board.edge ∧
      (∀ k, k ∉ l.map (·.jobId) → db'.board.job k = db.board.job k) ∧
      ∀ k ∈ l.map (·.jobId), ∃ J J', db.board.job k = some J ∧ db'.board.job k = some J' ∧
        Cancels J J' := by
  induction l generalizing db with
  | nil =>
      simp only [List.foldlM_nil, pure_ok_iff] at h
      subst h
      exact ⟨.refl, rfl, fun _ _ => rfl, fun k hk => absurd hk List.not_mem_nil⟩
  | cons s rest ih =>
      simp only [List.foldlM_cons, bind_ok_iff] at h
      obtain ⟨db₁, hs, hrest⟩ := h
      rw [List.map_cons, List.nodup_cons] at hnodup
      obtain ⟨hfirst, honly, J, J', hJ, hJ', hcancels⟩ :=
        moves_cancelCollectionSibling (M := M) hc (hcur s List.mem_cons_self) hs
      have hc₁ := hfirst.coupled hc
      have hcur₁ : ∀ t ∈ rest, Current db₁.board t := by
        intro t ht
        refine (hcur t (List.mem_cons_of_mem _ ht)).only honly ?_
        intro hsame
        exact hnodup.1 (hsame ▸ List.mem_map_of_mem ht)
      obtain ⟨hmoves, hedge, hframe, hends⟩ := ih hc₁ hcur₁ hnodup.2 hrest
      refine ⟨hfirst.trans hmoves, hedge.trans honly.edge, ?_, ?_⟩
      · intro k hk
        rw [List.map_cons, List.mem_cons, not_or] at hk
        rw [hframe k hk.2, honly.job k hk.1]
      · intro k hk
        rw [List.map_cons, List.mem_cons] at hk
        obtain rfl | hk := hk
        · exact ⟨J, J', hJ, (hframe _ hnodup.1).trans hJ', hcancels⟩
        · obtain ⟨K, K', hK, hK', hcancelled⟩ := hends k hk
          refine ⟨K, K', ?_, hK', hcancelled⟩
          rw [← honly.job k (fun hsame => hnodup.1 (hsame ▸ hk))]
          exact hK

/-- The listing of an unfinished job has one row, and it is current. -/
theorem siblingRows_current {job : JobRow} (hc : Coupled db.board)
    (hjob : db.jobs.get? j = some job) (hlive : job.progress.isTerminal = false) :
    ∃ s, siblingRows db j job = [s] ∧ s.jobId = j ∧ Current db.board s := by
  obtain ⟨p, hp⟩ := (Progress.not_isTerminal_iff _).mp hlive
  have hJ := Db.board_job hjob
  by_cases hrun : ∃ r run, db.runs.get? r = some run ∧ run.jobId = j
  · obtain ⟨r, run, hr, rfl⟩ := hrun
    have hR := Db.board_run hr
    obtain ⟨J, e, E, a, A, hb⟩ := hc.linked.bundle_of_run hR
    obtain ⟨execution, he, rfl⟩ := Db.board_execution_eq_some.mp hb.execution
    have hJ' : J = job.facts := Option.some.inj (hb.job.symm.trans hJ)
    subst hJ'
    have hruns : (db.runs.select fun _ row => row.jobId = run.jobId) = [(r, run)] := by
      refine Table.select_eq_singleton _ _ hr (by simp) ?_
      intro r' run' hr' hsame
      have hR' := Db.board_run hr'
      refine hc.linked.run_unique r' r run'.namespaceId run.namespaceId run.jobId ?_ (runLink_eq hR)
      rw [runLink_eq hR', ← of_decide_eq_true hsame]
      rfl
    have hexecutions : (db.executions.select fun _ row => row.runId = r) = [(e, execution)] := by
      refine Table.select_eq_singleton _ _ he (decide_eq_true hb.execution_run) ?_
      intro e' row' he' hsame
      have hE' := Db.board_execution he'
      refine hc.linked.execution_unique e' e row'.namespaceId _ r ?_ hb.executionLink
      rw [executionLink_eq hE', ← of_decide_eq_true hsame]
      rfl
    refine ⟨⟨run.jobId, job.progress, some ⟨e, r, execution.agentId, execution.progress⟩⟩, ?_, rfl,
      ⟨job.facts, run.facts, execution.facts, a, A, hb, rfl, p, hp⟩⟩
    simp only [siblingRows, hruns, hexecutions, List.flatMap_cons, List.flatMap_nil, List.map_cons,
      List.map_nil, List.append_nil]
  · have hnone : (db.runs.select fun _ row => row.jobId = j) = [] := by
      refine Table.select_eq_nil _ _ ?_
      intro r run hr
      exact decide_eq_false fun hsame => hrun ⟨r, run, hr, hsame⟩
    have hidle : db.board.Idle j := by
      intro r R hR hRj
      obtain ⟨run, hr, rfl⟩ := Db.board_run_eq_some.mp hR
      exact hrun ⟨r, run, hr, hRj⟩
    refine ⟨⟨j, job.progress, none⟩, by simp only [siblingRows, hnone], rfl, job.facts, hJ, ?_⟩
    obtain hacc | ⟨o, ho⟩ := hc.idle j job.facts hJ hidle
    · exact hacc
    · rw [show job.facts.progress = job.progress from rfl, hp] at ho
      cases ho

/-- The listing of unfinished jobs is current, and lists each job once. -/
theorem listing_current (hc : Coupled db.board) (l : List (Id × JobRow))
    (hl : ∀ entry ∈ l, db.jobs.get? entry.1 = some entry.2 ∧
      entry.2.progress.isTerminal = false) :
    (∀ s ∈ l.flatMap fun entry => siblingRows db entry.1 entry.2, Current db.board s) ∧
      (l.flatMap fun entry => siblingRows db entry.1 entry.2).map (·.jobId) = l.map Prod.fst := by
  induction l with
  | nil => simp
  | cons entry rest ih =>
      obtain ⟨ihcur, ihids⟩ := ih fun x hx => hl x (List.mem_cons_of_mem _ hx)
      obtain ⟨hget, hlive⟩ := hl entry List.mem_cons_self
      obtain ⟨s, hrows, hid, hcur⟩ := siblingRows_current hc hget hlive
      simp only [List.flatMap_cons, hrows, List.singleton_append, List.map_cons, hid, ihids]
      refine ⟨?_, trivial⟩
      intro t ht
      rcases List.mem_cons.mp ht with rfl | ht
      · exact hcur
      · exact ihcur t ht

end JobmanControl
