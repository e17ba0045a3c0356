import JobmanControl.Lifecycle.Licences

/-!
The fail-fast policy of a collection over whole runs. A child that ends by a report
takes the unfinished children with it; a child that `CancelJob` ends before an agent
has accepted it does not. So the policy holds in every run in which no child is
cancelled that way while another one is still wanted.
-/

namespace JobmanControl

open Relational Lifecycle Lifecycle.Board

variable {M : Licence} {j namespaceId c : Id} {b b' : Board}

variable {J J' : JobFacts}

namespace Lifecycle

/-- The job is finished, or it was asked to stop. -/
def JobFacts.Closed (J : JobFacts) : Prop :=
  (∃ o, J.progress = .terminal o) ∨ J.desiredState = .cancel

/-- A child that ended without success leaves every other child closed. -/
def FailsFast (c : Id) (b : Board) : Prop :=
  ∀ j J o, b.job j = some J → J.grouping.collectionId = some c → J.progress = .terminal o →
    o ≠ .success → ∀ k K, k ≠ j → b.job k = some K → K.grouping.collectionId = some c → K.Closed

/-- No child of the collection ended without success on the way, and none joined it. -/
def SparesChildren (c : Id) (b b' : Board) : Prop :=
  ∀ k K, b'.job k = some K → K.grouping.collectionId = some c →
    b.job k = some K ∨
      (∀ o, K.progress = .terminal o → o = .success) ∧ (b.job k ≠ none ∨ b.collection c = none)

theorem JobFacts.Closed.persists (h : J.Closed) (hp : Persists b b') (hJ : b.job j = some J)
    (hJ' : b'.job j = some J') : J'.Closed := by
  obtain ⟨o, ho⟩ | hcancel := h
  · cases (hp.job_terminal j J o hJ ho).symm.trans hJ'
    exact Or.inl ⟨o, ho⟩
  · obtain ⟨J₁, hJ₁, -, -, hkept⟩ := hp.job j J hJ
    cases hJ₁.symm.trans hJ'
    exact Or.inr (hkept hcancel)

theorem FailsFast.spares (h : FailsFast c b) (hp : Persists b b') (hw : Wired b)
    (hs : SparesChildren c b b') : FailsFast c b' := by
  intro j J o hJ hc ho hbad k K hk hK hKc
  obtain hold | ⟨hsuccess, -⟩ := hs j J hJ hc
  · obtain ⟨limit, hlimit⟩ := hw.housed j J c hold hc
    obtain hsame | ⟨-, hknown | hfresh⟩ := hs k K hK hKc
    · exact h j J o hold hc ho hbad k K hk hsame hKc
    · obtain ⟨K₀, hK₀⟩ := Option.ne_none_iff_exists'.mp hknown
      have hc₀ : K₀.grouping.collectionId = some c :=
        (hp.job_collection k K₀ K hK₀ hK).symm.trans hKc
      exact (h j J o hold hc ho hbad k K₀ hk hK₀ hc₀).persists hp hK₀ hK
    · rw [hfresh] at hlimit
      cases hlimit
  · exact absurd (hsuccess o ho) hbad

theorem SparesChildren.of_job_eq (h : b'.job = b.job) : SparesChildren c b b' :=
  fun _ _ hK _ => Or.inl (h ▸ hK)

theorem Furthers.sparesChildren (h : Furthers M b b') (hM : M.submits = false) :
    SparesChildren c b b' := by
  cases h with
  | nothing => exact .of_job_eq rfl
  | @one _ j J p hmoves honly hJ hp =>
      intro k K hK _
      by_cases hk : k = j
      · subst hk
        cases hJ.symm.trans hK
        refine Or.inr ⟨fun o ho => ?_, Or.inl (hmoves.job_known hM (by rw [hJ]; simp))⟩
        rw [hp] at ho
        cases ho
      · exact Or.inl ((honly.job k hk).symm.trans hK)

/-- A member of a collection is in no graph. -/
theorem Grouping.graphId_eq_none {grouping : Grouping} (h : grouping.collectionId = some c) :
    grouping.graphId = none := by
  cases grouping with
  | standalone | collection _ _ => rfl
  | graph _ _ _ => cases h

theorem sparesChildren_of_changed (hp : Persists b b')
    (hchanged : ∀ k, b'.job k ≠ b.job k →
      ∃ K, b.job k = some K ∧ K.grouping.collectionId ≠ some c) : SparesChildren c b b' := by
  intro k K hK hKc
  by_contra hold
  rw [not_or] at hold
  obtain ⟨K₀, hK₀, hne⟩ := hchanged k (by rw [hK]; exact fun hsame => hold.1 hsame.symm)
  exact hne ((hp.job_collection k K₀ K hK₀ hK).symm.trans hKc)

theorem Moves.new_run (hM : M.submits = false ∨ M.dispatches = false) (hm : Moves M b b')
    (hc : Coupled b) {r : Id} {R : RunFacts} (hR : b'.run r = some R) (hnone : b.run r = none) :
    ∃ J, b.job R.jobId = some J ∧ J.progress = .live .accepted ∧ J.desiredState = .run := by
  induction hm generalizing R with
  | refl =>
      rw [hnone] at hR
      cases hR
  | @tail b₁ b₂ hfirst hlast ih =>
      cases hR₁ : b₁.run r with
      | some R₁ =>
          obtain ⟨R₂, hR₂, hjob, -⟩ := (persists_move (Moves.coupled hfirst hc) hlast).run r R₁ hR₁
          cases hR₂.symm.trans hR
          rw [hjob]
          exact ih hR₁
      | none =>
          have hkeep : b₂.run = b₁.run → False := by
            intro hsame
            rw [hsame, hR₁] at hR
            cases hR
          cases hlast with
          | dispatch hdispatches hJ hacc hrun hfree _ _ _ _ _ _ hRj =>
              obtain ⟨rfl, rfl⟩ | ⟨-, hold⟩ := update_cases hR
              · rw [hRj]
                obtain hsubmits | hno := hM
                · obtain ⟨J₀, hJ₀⟩ := Option.ne_none_iff_exists'.mp
                    (Moves.job_known hsubmits hfirst (by rw [hJ]; simp))
                  cases (Moves.persists hfirst hc).job_waiting _ J₀ _ hJ₀ hJ hacc
                  exact ⟨_, hJ₀, hacc, hrun⟩
                · rw [hno] at hdispatches
                  cases hdispatches
              · rw [hR₁] at hold
                cases hold
          | advance hb _ _ _ =>
              obtain ⟨rfl, -⟩ | ⟨-, hold⟩ := update_cases hR
              · rw [hb.run] at hR₁
                cases hR₁
              · rw [hR₁] at hold
                cases hold
          | finish hb _ _ _ _ =>
              obtain ⟨rfl, -⟩ | ⟨-, hold⟩ := update_cases hR
              · rw [hb.run] at hR₁
                cases hR₁
              · rw [hR₁] at hold
                cases hold
          | _ => exact (hkeep rfl).elim

end Lifecycle

section Calls

variable {codec : Codec} {env : Env} {db db' : Db}

theorem Growth.sparesChildren {home : Grouping → Prop} (h : Growth home b b')
    (hfresh : ∀ grouping, home grouping → grouping.collectionId = some c → b.collection c = none) :
    SparesChildren c b b' := by
  intro k K hK hKc
  obtain hold | hhome := h.arrivals k K hK
  · exact Or.inl hold
  · by_cases hended : ∃ o, K.progress = .terminal o
    · obtain ⟨o, ho⟩ := hended
      exact Or.inl (h.quiet k K o hK ho)
    · exact Or.inr ⟨fun o ho => absurd ⟨o, ho⟩ hended, Or.inr (hfresh _ hhome hKc)⟩

theorem Cancels.closed (h : Cancels J J') : J'.Closed := by
  obtain ⟨-, hended⟩ | ⟨-, -, hcancel⟩ := h
  · exact Or.inl ⟨_, hended⟩
  · exact Or.inr hcancel

/-- What the end of a job does to its collection: children of it are cancelled, and all
of them if the policy is fail-fast and the outcome is not success. -/
theorem applyCollectionCompletion_alone {outcome : Outcome} (hc : Coupled db.board)
    (hJ : db.board.job j = some J) (hns : J.namespaceId = namespaceId)
    (h : applyCollectionCompletion codec env .alone namespaceId j outcome db = .ok db') :
    Moves M db.board db'.board ∧
      (∀ k, db'.board.job k ≠ db.board.job k → outcome ≠ .success ∧ ∃ K c,
        db.board.job k = some K ∧ K.grouping.collectionId = some c ∧
          J.grouping.collectionId = some c) ∧
      ∀ c collection, J.grouping.collectionId = some c → db.collections.get? c = some collection →
        collection.failurePolicy = .failFast → outcome ≠ .success → ∀ k K, k ≠ j →
          db'.board.job k = some K → K.grouping.collectionId = some c → K.Closed := by
  obtain ⟨job, hjob, rfl⟩ := Db.board_job_eq_some.mp hJ
  have hns' : ¬job.namespaceId ≠ namespaceId := not_not.mpr hns
  simp only [applyCollectionCompletion, hjob, if_neg hns'] at h
  cases hcoll : job.grouping.collectionId with
  | none =>
      simp only [hcoll] at h
      cases h
      refine ⟨.refl, fun k hk => absurd rfl hk, ?_⟩
      intro c _ hc'
      cases hcoll.symm.trans hc'
  | some c =>
      cases hrow : db.collections.get? c with
      | none =>
          simp only [hcoll, hrow] at h
          cases h
          refine ⟨.refl, fun k hk => absurd rfl hk, ?_⟩
          intro c' _ hc' hrow'
          cases hcoll.symm.trans hc'
          cases hrow.symm.trans hrow'
      | some collection =>
          by_cases hfast : collection.failurePolicy = .failFast ∧ outcome ≠ .success
          · simp only [hcoll, hrow, if_pos hfast, bind_ok_iff, pure_ok_iff] at h
            obtain ⟨db₁, hcancel, rfl⟩ := h
            rw [board_modify_collection]
            obtain ⟨hmoves, -, hframe, hends⟩ := moves_cancelListing (M := M) _ _ hc (by
              intro k sibling hp
              simp only [Bool.and_eq_true, Bool.not_eq_true'] at hp
              exact hp.2) hcancel
            refine ⟨hmoves, ?_, ?_⟩
            · intro k hk
              obtain ⟨sibling, hsibling, hp⟩ := hframe k hk
              simp only [Bool.and_eq_true, decide_eq_true_eq] at hp
              exact ⟨hfast.2, sibling.facts, c, Db.board_job hsibling, hp.1.1, hcoll⟩
            · intro c' _ hc' _ _ _ k K hkj hK hKc
              cases hc'.symm.trans hcoll
              have hknown : ∃ sibling, db.jobs.get? k = some sibling := by
                by_cases hk : db₁.board.job k = db.board.job k
                · obtain ⟨sibling, hsibling, -⟩ := Db.board_job_eq_some.mp (hk.symm.trans hK)
                  exact ⟨sibling, hsibling⟩
                · obtain ⟨sibling, hsibling, -⟩ := hframe k hk
                  exact ⟨sibling, hsibling⟩
              obtain ⟨sibling, hsibling⟩ := hknown
              have hS := Db.board_job hsibling
              have hp := hmoves.persists hc
              have hmember : sibling.grouping.collectionId = some c :=
                (hp.job_collection k _ K hS hK).symm.trans hKc
              by_cases hlive : sibling.progress.isTerminal = true
              · obtain ⟨o, ho⟩ := (Progress.isTerminal_iff _).mp hlive
                exact JobFacts.Closed.persists (Or.inl ⟨o, ho⟩) hp hS hK
              · obtain ⟨K', hK', hcancels⟩ := hends k sibling hsibling (by
                  simp [hmember, hkj, hlive])
                cases hK'.symm.trans hK
                exact hcancels.closed
          · simp only [hcoll, hrow, if_neg hfast] at h
            cases h
            rw [board_modify_collection]
            refine ⟨.refl, fun k hk => absurd rfl hk, ?_⟩
            intro c' collection' hc' hrow' hpolicy hbad
            cases hc'.symm.trans hcoll
            cases hrow'.symm.trans hrow
            exact absurd ⟨hpolicy, hbad⟩ hfast

theorem applyGraphCompletion_spares {view : GroupView} (hc : Coupled db.board) (hw : Wired db.board)
    (hJ : db.board.job j = some J) (hns : J.namespaceId = namespaceId)
    (h : applyGraphCompletion codec env view namespaceId j db = .ok db') :
    Moves M db.board db'.board ∧ SparesChildren c db.board db'.board := by
  obtain ⟨hmoves, -, hframe, -⟩ := moves_applyGraphCompletion (M := M) hc hw hJ hns h
  refine ⟨hmoves, sparesChildren_of_changed (hmoves.persists hc) ?_⟩
  intro k hk
  obtain ⟨K, hK, hKg⟩ := hframe k hk
  refine ⟨K, hK, fun hKc => ?_⟩
  -- Without a graph nothing is propagated.
  obtain ⟨job, hjob, rfl⟩ := Db.board_job_eq_some.mp hJ
  have hnone : job.grouping.graphId = none := hKg.symm.trans (Grouping.graphId_eq_none hKc)
  have hns' : ¬job.namespaceId ≠ namespaceId := not_not.mpr hns
  simp only [applyGraphCompletion, hjob, if_neg hns', hnone] at h
  cases h
  exact hk rfl

theorem cancelGraph_spares {authorization : Except StoreError Authorization} {g : Id}
    {key digest : String} {result : Graph} (hc : Coupled db.board)
    (h : cancelGraph codec env .alone authorization g key digest db = .ok (result, db')) :
    SparesChildren c db.board db'.board := by
  obtain hsame | ⟨namespaceId, t, db₂, hboard, hcancel⟩ := cancelGraph_cases h
  · exact .of_job_eq (by rw [hsame])
  · have hc₁ : Coupled ({ db with idempotency := t } : Db).board := hc
    obtain ⟨hmoves, -, hframe, -⟩ := moves_cancelListing (M := .nothing) _ _ hc₁ (by
      intro k job hp
      simp only [Bool.and_eq_true, Bool.not_eq_true'] at hp
      exact hp.2) hcancel
    rw [hboard]
    refine sparesChildren_of_changed (hmoves.persists hc₁) ?_
    intro k hk
    obtain ⟨job, hjob, hp⟩ := hframe k hk
    simp only [Bool.and_eq_true, decide_eq_true_eq] at hp
    refine ⟨job.facts, Db.board_job hjob, fun hcoll => ?_⟩
    cases hp.1.symm.trans (Grouping.graphId_eq_none hcoll)

theorem importCompletedHistory_spares {authorization : Except StoreError Authorization}
    {key : String} {dryRun : Bool} {jobId outboxId : Id} {request : CompletedHistoryImport}
    {result : HistoryImportResult} (h : importCompletedHistory codec env authorization key dryRun
      jobId outboxId request db = .ok (result, db')) : SparesChildren c db.board db'.board := by
  obtain hsame | ⟨b, J, J', n, o, hgrowth, hb, -, -, -, -, hgroup', -, hboard⟩ :=
    importCompletedHistory_cases h
  · exact .of_job_eq (by rw [hsame])
  · intro k K hK hKc
    rw [hboard] at hK
    obtain ⟨-, rfl⟩ | ⟨hk, hold⟩ := update_cases hK
    · rw [hgroup'] at hKc
      cases hKc
    · rw [hb] at hold
      obtain ⟨rfl, -⟩ | ⟨-, hsame⟩ := update_cases hold
      · exact absurd rfl hk
      · exact Or.inl hsame

def PolicyKept (db db' : Db) : Prop :=
  ∀ c, (db'.collections.get? c).map CollectionRow.failurePolicy =
    (db.collections.get? c).map CollectionRow.failurePolicy ∨ db.collections.get? c = none

theorem policyKept_footprint (codec : Codec) (env : Env)
    (asked : JobSubmission → Grouping → Prop) : CallFootprint codec env asked PolicyKept where
  refl db c := Or.inl rfl
  trans := by
    intro a b c hab hbc id
    obtain hsame | hnone := hab id
    · obtain hsame' | hnone' := hbc id
      · exact Or.inl (hsame'.trans hsame)
      · rw [hnone'] at hsame
        exact Or.inr (Option.map_eq_none_iff.mp hsame.symm)
    · exact Or.inr hnone
  updateJob _ h c := by
    obtain ⟨jobs, outbox, rfl⟩ := Db.updateJob_eq h
    exact Or.inl rfl
  updateRun _ h c := by
    obtain ⟨runs, rfl⟩ := Db.updateRun_eq h
    exact Or.inl rfl
  insertOutbox h _ c := by
    obtain ⟨outbox, rfl⟩ := insertOutbox_ok h
    exact Or.inl rfl
  insertCollection := by
    intro db id row t h c
    by_cases hc : c = id
    · subst hc
      exact Or.inr (Table.insert?_free h)
    · refine Or.inl ?_
      simp only [Table.get?_insert h, if_neg hc]
  insertWorkload _ _ := Or.inl rfl
  insertGraph _ _ := Or.inl rfl
  touchCollection db id c := by
    have hkept := Table.map_get?_modify db.collections id (CollectionRow.touch env)
      CollectionRow.failurePolicy fun _ => rfl
    exact Or.inl (congrFun hkept c)
  touchGraph _ _ _ := Or.inl rfl
  insertJob _ _ _ _ := Or.inl rfl
  insertItem _ _ _ := Or.inl rfl
  insertNode _ _ _ _ := Or.inl rfl
  insertRun _ _ _ := Or.inl rfl
  insertExecution _ _ _ := Or.inl rfl
  insertAssignment _ _ _ := Or.inl rfl
  touchPolicy _ _ _ := Or.inl rfl
  updateExecutions _ _ := Or.inl rfl
  updateAssignments _ _ := Or.inl rfl
  elsewhere h c := by
    have hsame := congrArg WatchedTables.collections h
    exact Or.inl (congrArg (fun t => (Table.get? t c).map CollectionRow.failurePolicy) hsame)
  writeKeys _ := Or.inl rfl

theorem policyKept_report (codec : Codec) (env : Env) : ReportFootprint codec env PolicyKept where
  toWorkFootprint := (policyKept_footprint codec env fun _ _ => False).toWorkFootprint
  writeEvents _ := Or.inl rfl
  writeArtifacts _ := Or.inl rfl
  reportExecution _ _ := Or.inl rfl

def Db.HasFailFast (db : Db) (c : Id) : Prop :=
  ∀ collection, db.collections.get? c = some collection → collection.failurePolicy = .failFast

theorem PolicyKept.before (h : PolicyKept db db') (hfast : db'.HasFailFast c) :
    db.HasFailFast c := by
  intro collection hrow
  obtain hsame | hnone := h c
  · rw [hrow] at hsame
    obtain ⟨row, hrow', hpolicy⟩ := Option.map_eq_some_iff.mp hsame
    exact hpolicy ▸ hfast row hrow'
  · cases hrow.symm.trans hnone

theorem Db.HasFailFast.kept (hfast : db.HasFailFast c) (hw : Wired db.board)
    (hJ : db.board.job j = some J) (hhome : J.grouping.collectionId = some c)
    (h : PolicyKept db db') :
    ∃ collection, db'.collections.get? c = some collection ∧
      collection.failurePolicy = .failFast := by
  obtain ⟨limit, hlimit⟩ := hw.housed j J c hJ hhome
  obtain ⟨row, hrow, -⟩ := Option.map_eq_some_iff.mp hlimit
  obtain hsame | hnone := h c
  · rw [hrow] at hsame
    obtain ⟨row', hrow', hpolicy⟩ := Option.map_eq_some_iff.mp hsame
    exact ⟨row', hrow', hpolicy.trans (hfast row hrow)⟩
  · cases hrow.symm.trans hnone

theorem failsFast_of_closed {o : Outcome} (hJ : b.job j = some J) (ho : J.progress = .terminal o)
    (hclosed : ∀ k K, k ≠ j → b.job k = some K → K.grouping.collectionId = some c → K.Closed) :
    FailsFast c b := by
  intro _ _ _ _ _ _ _ k K _ hK hKc
  by_cases hk : k = j
  · subst hk
    cases hJ.symm.trans hK
    exact Or.inl ⟨o, ho⟩
  · exact hclosed k K hk hK hKc

theorem RecordsEvent.failsFast {identity : AgentIdentity} {event : ExecutionObservation}
    {db₃ db₄ : Db} (h : RecordsEvent codec env .alone identity event .nothing j J J' db db₃ db₄)
    (hc : Coupled db.board) (hw : Wired db.board) (hpolicy : db.HasFailFast c)
    (hfast : FailsFast c db.board) : FailsFast c db₄.board := by
  obtain ⟨r, R, E, a, A, hb, -⟩ := h.bundle
  obtain ⟨J₁, hJ₁, hns', -⟩ := (h.moves.persists hc).job j J hb.job
  cases hJ₁.symm.trans h.after
  have hhome := (h.moves.persists hc).job_collection j J J' hb.job h.after
  have hgroup := h.group
  unfold completeGroup at hgroup
  split at hgroup
  · rename_i hcomplete
    simp only [bind_ok_iff, need_ok_iff] at hgroup
    obtain ⟨outcome, houtcome, db₅, hcollection, hgraph⟩ := hgroup
    obtain ⟨o, ho', ho⟩ := h.ended hcomplete
    cases houtcome.symm.trans ho'
    have hc₃ := h.moves.coupled hc
    have hw₃ := h.moves.wired hc hw
    obtain ⟨hmoves, hframe, hcloses⟩ := applyCollectionCompletion_alone (M := .nothing) hc₃ h.after
      (hns'.trans h.sameNamespace) hcollection
    have hp₅ := hmoves.persists hc₃
    have hJ₅ := hp₅.job_terminal j J' _ h.after ho
    have hc₅ := hmoves.coupled hc₃
    obtain ⟨hrest, hspares⟩ := applyGraphCompletion_spares (M := .nothing) (c := c) hc₅
      (hmoves.wired hc₃ hw₃) hJ₅ (hns'.trans h.sameNamespace) hgraph
    refine FailsFast.spares ?_ (hrest.persists hc₅) (hmoves.wired hc₃ hw₃) hspares
    by_cases hended : J'.grouping.collectionId = some c ∧ outcome ≠ .success
    · obtain ⟨collection, hrow, hsame⟩ :=
        hpolicy.kept hw hb.job (hhome.symm.trans hended.1)
          (h.writes (policyKept_report codec env))
      exact failsFast_of_closed hJ₅ ho (hcloses c collection hended.1 hrow hsame hended.2)
    · refine hfast.spares ((h.moves.persists hc).trans hp₅) hw ?_
      intro k K hK hKc
      have hkept : db₅.board.job k = db₃.board.job k := by
        by_contra hk
        obtain ⟨hbad, K₀, c', hK₀, hc', hJc⟩ := hframe k hk
        cases (hp₅.job_collection k K₀ K hK₀ hK).symm.trans hKc |>.symm.trans hc'
        exact hended ⟨hJc, hbad⟩
      rw [hkept] at hK
      by_cases hk : k = j
      · subst hk
        cases h.after.symm.trans hK
        refine Or.inr ⟨fun o' ho₁ => ?_, Or.inl (by rw [hb.job]; simp)⟩
        cases ho.symm.trans ho₁
        by_contra hbad
        exact hended ⟨hKc, hbad⟩
      · exact Or.inl ((h.only.job k hk).symm.trans hK)
  · rename_i hopen
    cases hgroup
    obtain ⟨p, hp⟩ := h.live (Bool.eq_false_iff.mpr hopen)
    exact hfast.spares (h.moves.persists hc) hw
      ((Furthers.one h.moves h.only h.after hp).sparesChildren rfl)

theorem CancelsJob.failsFast {db₂ : Db}
    (h : CancelsJob codec env .alone namespaceId j .nothing J J' db db₂ db') (hc : Coupled db.board)
    (hw : Wired db.board) (hallowed : J.progress = .live .accepted ∨ J.progress = .live .assigning →
      J.grouping.collectionId = some c → ∀ k K, k ≠ j → db.board.job k = some K →
        K.grouping.collectionId = some c → K.Closed) (hfast : FailsFast c db.board) :
    FailsFast c db'.board := by
  have hp := h.moves.persists hc
  cases hJ' : J'.progress with
  | live p =>
      rw [h.pending p hJ']
      exact hfast.spares hp hw ((Furthers.one h.moves h.only h.after hJ').sparesChildren rfl)
  | terminal o =>
      have hc₂ := h.moves.coupled hc
      have hw₂ := h.moves.wired hc hw
      obtain ⟨hrest, hspares⟩ := applyGraphCompletion_spares (M := .nothing) (c := c) hc₂ hw₂
        h.after h.sameNamespace (h.ended o hJ')
      refine FailsFast.spares ?_ (hrest.persists hc₂) hw₂ hspares
      by_cases hJc : J.grouping.collectionId = some c
      · refine failsFast_of_closed h.after hJ' ?_
        intro k K hk hK hKc
        rw [h.only.job k hk] at hK
        obtain ⟨hunclaimed, -⟩ | ⟨-, hsame, -⟩ := h.cancels
        · exact hallowed hunclaimed hJc k K hk hK hKc
        · obtain ⟨p, hlive⟩ := h.live
          rw [hsame, hlive] at hJ'
          cases hJ'
      · refine hfast.spares hp hw (sparesChildren_of_changed hp ?_)
        intro k hk
        have hkj : k = j := by
          by_contra hne
          exact hk (h.only.job k hne)
        exact ⟨J, hkj ▸ h.before, hJc⟩

/-- The call cancels a child of a fail-fast collection that no agent has accepted yet,
while another child is neither finished nor asked to stop. -/
def Call.deserts (db : Db) (call : Call) : Bool :=
  match call.operation with
  | .cancelJob _ jobId _ _ =>
      (db.jobs.get? jobId).any fun job =>
        (job.progress = .live .accepted || job.progress = .live .assigning) &&
          (job.grouping.collectionId.bind db.collections.get?).any
            (fun collection => collection.failurePolicy = .failFast) &&
          db.jobs.any fun siblingId sibling =>
            siblingId ≠ jobId && sibling.grouping.collectionId = job.grouping.collectionId &&
              !sibling.progress.isTerminal && sibling.desiredState = .run
  | _ => false

theorem Call.deserts_cancelJob {authorization : Except StoreError Authorization}
    {key digest : String} {job : JobRow} {collection : CollectionRow}
    (h : Call.deserts db ⟨env, .cancelJob authorization j key digest⟩ = false)
    (hjob : db.jobs.get? j = some job) (hrow : db.collections.get? c = some collection)
    (hpolicy : collection.failurePolicy = .failFast)
    (hunclaimed : job.progress = .live .accepted ∨ job.progress = .live .assigning)
    (hhome : job.grouping.collectionId = some c) {k : Id} {K : JobFacts} (hk : k ≠ j)
    (hK : db.board.job k = some K) (hKc : K.grouping.collectionId = some c) : K.Closed := by
  obtain ⟨sibling, hsibling, rfl⟩ := Db.board_job_eq_some.mp hK
  have hsame : sibling.grouping.collectionId = some c := hKc
  simp only [Call.deserts, hjob, hhome, Option.bind_some, hrow, Option.any_some, hpolicy,
    decide_true, Bool.and_true, Bool.and_eq_false_iff, Bool.or_eq_false_iff,
    decide_eq_false_iff_not] at h
  obtain ⟨hnot, hnot'⟩ | hnone := h
  · exact absurd hunclaimed (not_or.mpr ⟨hnot, hnot'⟩)
  · have hthis := (Table.any_eq_false_iff _ _).mp hnone k sibling hsibling
    simp only [hk, ne_eq, not_false_eq_true, decide_true, hsame, Bool.true_and,
      Bool.and_eq_false_iff, Bool.not_eq_false', decide_eq_false_iff_not] at hthis
    obtain hended | hcancel := hthis
    · exact Or.inl ((Progress.isTerminal_iff _).mp hended)
    · refine Or.inr ?_
      show sibling.desiredState = .cancel
      cases hdesired : sibling.desiredState with
      | run => exact absurd hdesired hcancel
      | cancel => rfl

theorem failsFast_atomically {α : Type} {tx : Tx StoreError Db α} (hfast : FailsFast c db.board)
    (h : ∀ a db', tx db = .ok (a, db') → FailsFast c db'.board) :
    FailsFast c (atomically tx db).board := by
  obtain ⟨a, hok⟩ | hsame := atomically_cases tx db
  · exact h a _ hok
  · rw [hsame]
    exact hfast

theorem failsFast_apply (call : Call) (hs : Sound db.board) (hpolicy : db.HasFailFast c)
    (hallowed : call.deserts db = false) (hfast : FailsFast c db.board) :
    FailsFast c (call.apply codec db).board := by
  have hc := hs.coupled
  have hw := hs.wired
  have hspare : ∀ {db' : Db} {M : Licence}, Effect M (fun _ => false) db.board db'.board →
      SparesChildren c db.board db'.board → FailsFast c db'.board :=
    fun heffect hspares => hfast.spares (heffect.moves.persists hc) hw hspares
  obtain ⟨env, operation⟩ := call
  cases operation with
  | configure configuration => exact hfast
  | submitJob =>
      refine failsFast_atomically hfast fun _ _ h => ?_
      refine hspare (effect_submitJob h) ((growth_submitJob h).1.sparesChildren ?_)
      rintro _ rfl hnone
      cases hnone
  | submitCollection =>
      refine failsFast_atomically hfast fun _ _ h => hspare (effect_submitCollection h) ?_
      obtain hsame | ⟨hfresh, hgrowth, -⟩ := growth_submitCollection h
      · exact .of_job_eq (by rw [hsame])
      · refine hgrowth.sparesChildren fun _ hhome hc => ?_
        cases hhome.symm.trans hc
        exact hfresh
  | submitGraph =>
      refine failsFast_atomically hfast fun _ _ h => hspare (effect_submitGraph h) ?_
      obtain ⟨-, hsame⟩ | hpublished := submitGraph_cases h
      · exact .of_job_eq (by rw [hsame])
      · refine hpublished.growth.sparesChildren fun grouping hgraph hc => ?_
        cases hgraph.symm.trans (Grouping.graphId_eq_none hc)
  | reconcileOneAssignment ids =>
      refine failsFast_atomically hfast fun _ _ h => ?_
      exact hspare (effect_reconcileOneAssignment hw h)
        ((furthers_reconcileOneAssignment hw h).sparesChildren rfl)
  | acceptAssignment =>
      refine failsFast_atomically hfast fun _ _ h => ?_
      exact hspare (M := .nothing) (effect_acceptAssignment hc h)
        ((furthers_acceptAssignment (M := .nothing) hc h).sparesChildren rfl)
  | recordExecutionEvent =>
      refine failsFast_atomically hfast fun _ db' h => ?_
      obtain rfl | ⟨j, J, J', db₃, db₄, hrecords, hconfidence⟩ :=
        recordExecutionEvent_cases (M := .nothing) hc h
      · exact hfast
      · rw [Db.board_updateExecution_keep hconfidence (by
          rintro old new ⟨⟩
          rfl)]
        exact hrecords.failsFast hc hw hpolicy hfast
  | cancelJob authorization j key digest =>
      refine failsFast_atomically hfast fun _ db' h => ?_
      obtain ⟨granted, -, ⟨hsame, -⟩ | ⟨J, J', db₂, hcancels⟩⟩ :=
        cancelJob_cases (M := .nothing) hc h
      · rw [hsame]
        exact hfast
      · obtain ⟨job, hjob, rfl⟩ := Db.board_job_eq_some.mp hcancels.before
        refine hcancels.failsFast hc hw ?_ hfast
        intro hunclaimed hhome k K hk hK hKc
        obtain ⟨collection, hrow, hsame⟩ :=
          hpolicy.kept hw hcancels.before hhome fun _ => Or.inl rfl
        exact Call.deserts_cancelJob hallowed hjob hrow hsame hunclaimed hhome hk hK hKc
  | cancelGraph authorization g key digest =>
      refine failsFast_atomically hfast fun _ db' h => ?_
      exact hspare (M := .nothing) (effect_cancelGraph hc h) (cancelGraph_spares hc h)
  | reconcileStaleExecution =>
      refine failsFast_atomically hfast fun _ _ h => ?_
      exact hspare (M := .nothing) (effect_reconcileStaleExecution hc h)
        ((furthers_reconcileStaleExecution (M := .nothing) hc h).sparesChildren rfl)
  | importCompletedHistory authorization key dryRun jobId outboxId request =>
      refine failsFast_atomically hfast fun _ _ h => ?_
      exact hspare (effect_importCompletedHistory h) (importCompletedHistory_spares h)

end Calls

namespace Db

/-- The job is a child of a fail-fast collection and ended without success. -/
def FailedIn (db : Db) (c j : Id) : Prop :=
  ∃ collection job o, db.collections.get? c = some collection ∧
    collection.failurePolicy = .failFast ∧ db.jobs.get? j = some job ∧
    job.grouping.collectionId = some c ∧ job.progress = .terminal o ∧ o ≠ .success

/-- Every other child of a failed fail-fast collection is finished or asked to stop. -/
def FailFastKept (db : Db) : Prop :=
  ∀ c j, db.FailedIn c j → ∀ k sibling, k ≠ j → db.jobs.get? k = some sibling →
    sibling.grouping.collectionId = some c →
      sibling.progress.isTerminal = true ∨ sibling.desiredState = .cancel

/-- No child of a failed fail-fast collection gets a run. -/
def NoneDispatched (db db' : Db) : Prop :=
  ∀ r run, db.runs.get? r = none → db'.runs.get? r = some run → ∀ job c,
    db.jobs.get? run.jobId = some job → job.grouping.collectionId = some c → ∀ j, ¬db.FailedIn c j

end Db

section Runs

variable {codec : Codec} {db db' : Db}

theorem failsFast_step {call : Call} (hs : Sound db.board)
    (hfast : ∀ c, db.HasFailFast c → FailsFast c db.board)
    (hallowed : call.deserts db = false) (h : Db.Step codec db call db') (c : Id)
    (hpolicy : db'.HasFailFast c) : FailsFast c db'.board := by
  subst h
  have hkept : PolicyKept db (call.apply codec db) :=
    Call.apply_footprint call (policyKept_footprint codec call.env _) db (fun _ _ _ => Or.inl rfl)
      fun _ _ _ _ => (policyKept_report codec call.env).recordExecutionEvent
  have hbefore := hkept.before hpolicy
  exact failsFast_apply call hs hbefore hallowed (hfast c hbefore)

theorem failFastKept_of_failsFast (h : ∀ c, db.HasFailFast c → FailsFast c db.board) :
    db.FailFastKept := by
  rintro c j ⟨collection, job, o, hrow, hpolicy, hjob, hhome, ho, hbad⟩ k sibling hk hsibling hsame
  have hfast : db.HasFailFast c := by
    intro row hrow'
    cases hrow.symm.trans hrow'
    exact hpolicy
  obtain ⟨o', ho'⟩ | hcancel := h c hfast j job.facts o
    (Db.board_job hjob) hhome ho hbad k sibling.facts hk
    (Db.board_job hsibling) hsame
  · exact Or.inl ((Progress.isTerminal_iff _).mpr ⟨o', ho'⟩)
  · exact Or.inr hcancel

theorem Operation.licence_separates (operation : Operation) :
    operation.licence.submits = false ∨ operation.licence.dispatches = false := by
  cases operation <;> simp [Operation.licence, Licence.submission, Licence.dispatch,
    Licence.configuration, Licence.nothing]

theorem noneDispatched_apply (call : Call) (hs : Sound db.board) (hkept : db.FailFastKept) :
    db.NoneDispatched (call.apply codec db) := by
  intro r run hnone hrun job c hjob hhome j hfailed
  obtain ⟨J, hJ, hacc, hwanted⟩ := (effect_apply codec call hs.coupled hs.wired).moves.new_run
    call.operation.licence_separates hs.coupled
    (Db.board_run hrun) (Option.map_eq_none_iff.mpr hnone)
  obtain ⟨row, hrow, rfl⟩ := Db.board_job_eq_some.mp hJ
  cases hjob.symm.trans hrow
  have hacc' : job.progress = .live .accepted := hacc
  have hne : run.jobId ≠ j := by
    rintro rfl
    obtain ⟨_, job', o, -, -, hjob', -, ho, -⟩ := hfailed
    cases hjob.symm.trans hjob'
    rw [hacc'] at ho
    cases ho
  obtain hended | hcancel := hkept c j hfailed run.jobId job hne hjob hhome
  · rw [hacc'] at hended
    cases hended
  · have hwanted' : job.desiredState = .run := hwanted
    rw [hwanted'] at hcancel
    cases hcancel

/-- In every run in which `CancelJob` deserts no fail-fast collection, a child that ended
without success leaves every other child finished or asked to stop, and none of them is
dispatched afterwards. -/
theorem fail_fast_kept (h : Transition.Reaches (Db.Step codec)
      (fun db call => call.deserts db = false) Db.empty db) :
    db.FailFastKept ∧ ∀ call : Call, db.NoneDispatched (call.apply codec db) := by
  obtain ⟨hs, hfast⟩ := h.invariant
    (P := fun db => Sound db.board ∧ ∀ c, db.HasFailFast c → FailsFast c db.board)
    ⟨sound_empty, fun c _ j J o hJ => by cases hJ⟩ (by
      rintro db call db' ⟨hs, hfast⟩ hallowed hstep
      exact ⟨sound_step hs hstep, failsFast_step hs hfast hallowed hstep⟩)
  have hkept := failFastKept_of_failsFast hfast
  exact ⟨hkept, fun call => noneDispatched_apply call hs hkept⟩

end Runs

namespace Sample

def batch : CollectionSubmission where
  namespaceName := "research"
  name := "batch"
  labels := []
  maxActive := 2
  failurePolicy := .failFast
  arrayPolicy := .never
  requestDigest := "request"
  requestDocument := "{}"
  items := [submission "first", submission "second"]

def batchSubmitted : List Call :=
  [⟨env 0, .configure configuration⟩,
    ⟨env 1, .submitCollection authorization "submit-batch-1" graphIds batch⟩]

def batchFailed : Db := Db.empty.run codec (batchSubmitted ++ firstNode .failure)

def batchCancelled : Db :=
  Db.empty.run codec
    (batchSubmitted ++ [⟨env 2, .cancelJob authorization 10 "cancel-first-1" "cancel"⟩])

end Sample

theorem Db.failedIn_of_eval {db : Db} (index : Nat) (o : Outcome) (hbad : o ≠ .success)
    (hrow : (db.collections.get? c).map CollectionRow.failurePolicy = some .failFast)
    (hjob : (db.jobs.get? j).map (fun job => (job.grouping, job.progress)) =
      some (.collection c index, .terminal o)) : db.FailedIn c j := by
  obtain ⟨collection, hcollection, hpolicy⟩ := Option.map_eq_some_iff.mp hrow
  obtain ⟨job, hget, heq⟩ := Option.map_eq_some_iff.mp hjob
  obtain ⟨hgroup, ho⟩ := Prod.mk.inj heq
  exact ⟨collection, job, o, hcollection, hpolicy, hget, by rw [hgroup]; rfl, ho, hbad⟩

/-- The report of a failed child is what the policy is for. -/
theorem fail_fast_kept_batch :
    (Sample.batchFailed.FailFastKept ∧
        ∀ call : Call,
          Sample.batchFailed.NoneDispatched (call.apply Sample.codec Sample.batchFailed)) ∧
      Sample.batchFailed.FailedIn 20 10 ∧
      (Sample.batchFailed.jobs.get? 11).map (fun job => (job.progress, job.desiredState)) =
        some (.terminal .cancelled, .cancel) := by
  refine ⟨fail_fast_kept ?_, Db.failedIn_of_eval 0 .failure (by decide) (by decide) (by decide),
    by decide⟩
  have hrun := Db.reaches_run Sample.codec (fun db call => !call.deserts db) Db.empty
    (Sample.batchSubmitted ++ Sample.firstNode .failure) (by decide)
  exact hrun.mono fun db call h => (Bool.not_eq_true' _).mp h

/-- A child that is cancelled before its dispatch leaves its sibling wanted, and the next
dispatch takes it. -/
theorem fail_fast_ignores_cancelled_child :
    Db.Arises Sample.codec Sample.batchCancelled ∧ ¬Sample.batchCancelled.FailFastKept ∧
      ¬Sample.batchCancelled.NoneDispatched
        (Call.apply Sample.codec ⟨Sample.env 3, .reconcileOneAssignment ⟨40, 41, 42, 43⟩⟩
          Sample.batchCancelled) := by
  have hfailed : Sample.batchCancelled.FailedIn 20 10 :=
    Db.failedIn_of_eval 0 .cancelled (by decide) (by decide) (by decide)
  obtain ⟨sibling, hsibling, heq⟩ : ∃ job, Sample.batchCancelled.jobs.get? 11 = some job ∧
      (job.grouping, job.progress, job.desiredState) =
        (.collection 20 1, .live .accepted, .run) := Option.map_eq_some_iff.mp (by decide)
  simp only [Prod.mk.injEq] at heq
  obtain ⟨hgroup, hlive, hwanted⟩ := heq
  have hhome : sibling.grouping.collectionId = some 20 := by
    rw [hgroup]
    rfl
  refine ⟨Db.later_run Sample.codec Db.empty _, ?_, ?_⟩
  · intro hkept
    obtain hended | hcancel := hkept 20 10 hfailed 11 sibling (by decide) hsibling hhome
    · rw [hlive] at hended
      cases hended
    · rw [hwanted] at hcancel
      cases hcancel
  · intro hnone
    obtain ⟨run, hrun, hjob⟩ : ∃ run, (Call.apply Sample.codec
        ⟨Sample.env 3, .reconcileOneAssignment ⟨40, 41, 42, 43⟩⟩
        Sample.batchCancelled).runs.get? 40 = some run ∧ run.jobId = 11 :=
      Option.map_eq_some_iff.mp (by decide)
    exact hnone 40 run (by decide) hrun sibling 20 (by rw [hjob]; exact hsibling) hhome 10 hfailed

end JobmanControl
