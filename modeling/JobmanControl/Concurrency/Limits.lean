import JobmanControl.Concurrency.Coordinator

/-!
The limits on active jobs among coordinators. A dispatch holds the rows of its
limits from its claim to its commit, so counts that stand when it gets its locks
stand until it commits. Nothing makes them stand: a coordinator that began its
claim before another one committed dispatches on the older count.
-/

namespace JobmanControl

open Relational Interleaving Lifecycle Lifecycle.Board

variable {job : JobRow} {codec : Codec} {env : Env} {c : AssignmentCandidate}
  {locked : RowKey → Bool}

variable {M : Licence}

/-- No limit on active jobs is exceeded. -/
structure Db.WithinLimits (db : Db) : Prop where
  namespaces : ∀ n policy, db.policies.get? n = some policy →
    db.activeInNamespace n ≤ policy.maxActiveJobs
  collections : ∀ c collection, db.collections.get? c = some collection →
    collection.arrayMode ≠ .slurmArray → db.activeInCollection c ≤ collection.maxActive
  graphs : ∀ g graph, db.graphs.get? g = some graph → db.activeInGraph g ≤ graph.maxActive

variable {j : Id} {scope : Scope} {skips : Id → Bool}

theorem Db.withinLimits_iff (db : Db) :
    db.WithinLimits ↔ ∀ scope limit, db.limit scope = some limit → db.activeIn scope ≤ limit := by
  constructor
  · intro h scope limit hlimit
    cases scope with
    | inNamespace n =>
        obtain ⟨policy, hpolicy, rfl⟩ := Option.map_eq_some_iff.mp hlimit
        exact h.namespaces n policy hpolicy
    | inCollection c =>
        obtain ⟨collection, hcollection, hmode⟩ := Option.bind_eq_some_iff.mp hlimit
        rw [Option.ite_none_left_eq_some] at hmode
        obtain ⟨hmode, hmax⟩ := hmode
        cases hmax
        exact h.collections c collection hcollection hmode
    | inGraph g =>
        obtain ⟨graph, hgraph, rfl⟩ := Option.map_eq_some_iff.mp hlimit
        exact h.graphs g graph hgraph
  · intro h
    refine ⟨?_, ?_, ?_⟩
    · intro n policy hpolicy
      exact h (.inNamespace n) _ (by simp [Db.limit, hpolicy])
    · intro c collection hcollection hmode
      exact h (.inCollection c) _ (by simp [Db.limit, hcollection, hmode])
    · intro g graph hgraph
      exact h (.inGraph g) _ (by simp [Db.limit, hgraph])

theorem Db.activeIn_eq (db : Db) (scope : Scope) :
    db.activeIn scope = db.jobs.count fun _ job => scope.covers job && job.isActive := by
  cases scope with
  | inNamespace | inCollection | inGraph => rfl

theorem active_facts_iff : job.facts.Active ↔ job.isActive = true := by
  unfold JobFacts.Active JobRow.isActive JobRow.isAccepted
  rw [show job.facts.progress = job.progress from rfl]
  cases job.progress with
  | live phase => simp [Progress.isTerminal]
  | terminal o => simp [Progress.isTerminal]

section Frame

variable {db db' : Db}

theorem covers_eq (hc : Coupled db.board) (hm : Moves M db.board db'.board) {job' : JobRow}
    (hj : db.jobs.get? j = some job) (hj' : db'.jobs.get? j = some job') (scope : Scope) :
    scope.covers job' = scope.covers job := by
  have hp := hm.persists hc
  have hJ := Db.board_job hj
  have hJ' := Db.board_job hj'
  have hcollection : job'.grouping.collectionId = job.grouping.collectionId :=
    hp.job_collection j _ _ hJ hJ'
  obtain ⟨J, hJ'', hns, hgraph, -⟩ := hp.job j _ hJ
  cases hJ'.symm.trans hJ''
  have hns' : job'.namespaceId = job.namespaceId := hns
  have hgraph' : job'.grouping.graphId = job.grouping.graphId := hgraph
  cases scope with
  | inNamespace n => simp only [Scope.covers, hns']
  | inCollection c => simp only [Scope.covers, hcollection]
  | inGraph g => simp only [Scope.covers, hgraph']

theorem activeIn_le (hM : M.dispatches = false) (hc : Coupled db.board)
    (hm : Moves M db.board db'.board) (scope : Scope) :
    db'.activeIn scope ≤ db.activeIn scope := by
  rw [Db.activeIn_eq, Db.activeIn_eq]
  refine Table.count_le_count fun j job hj hp => ?_
  rw [Bool.and_eq_true] at hp
  obtain ⟨hcovers, hactive⟩ := hp
  have hJ := Db.board_job hj
  obtain ⟨K, hK, hKactive⟩ := hm.active_before hM hJ (active_facts_iff.mpr hactive)
  obtain ⟨row, hrow, rfl⟩ := Db.board_job_eq_some.mp hK
  refine ⟨row, hrow, ?_⟩
  rw [Bool.and_eq_true, ← covers_eq hc hm hrow hj scope]
  exact ⟨hcovers, active_facts_iff.mp hKactive⟩

theorem activeIn_only (hc : Coupled db.board) (hm : Moves M db.board db'.board)
    (honly : Only j db.board db'.board) (hj : db.jobs.get? j = some job) (scope : Scope) :
    db'.activeIn scope ≤ db.activeIn scope + if scope.covers job then 1 else 0 := by
  rw [Db.activeIn_eq, Db.activeIn_eq]
  have hother : ∀ k row', db'.jobs.get? k = some row' → k ≠ j →
      (scope.covers row' && row'.isActive) = true →
      ∃ row, db.jobs.get? k = some row ∧ (scope.covers row && row.isActive) = true := by
    intro k row' hk hkj hp
    have hK := Db.board_job hk
    rw [honly.job k hkj] at hK
    obtain ⟨row, hrow, hfacts⟩ := Db.board_job_eq_some.mp hK
    refine ⟨row, hrow, ?_⟩
    rw [Bool.and_eq_true] at hp ⊢
    refine ⟨by rw [← covers_eq hc hm hrow hk scope]; exact hp.1, ?_⟩
    rw [← active_facts_iff, hfacts, active_facts_iff]
    exact hp.2
  by_cases hcovers : scope.covers job = true
  · rw [if_pos hcovers]
    refine Table.count_le_count_add [j] fun k row' hk hp => ?_
    by_cases hkj : k = j
    · exact Or.inl (hkj ▸ List.mem_cons_self)
    · exact Or.inr (hother k row' hk hkj hp)
  · rw [if_neg hcovers, Nat.add_zero]
    refine Table.count_le_count fun k row' hk hp => ?_
    refine hother k row' hk ?_ hp
    rintro rfl
    rw [Bool.and_eq_true, covers_eq hc hm hj hk scope] at hp
    exact hcovers hp.1

theorem activeIn_eq_zero (h : ∀ j job, db.jobs.get? j = some job → scope.covers job = false) :
    db.activeIn scope = 0 := by
  rw [Db.activeIn_eq]
  refine Nat.eq_zero_of_not_pos fun hpos => ?_
  obtain ⟨j, row, hj, hp⟩ := (Table.count_pos_iff _ _).mp hpos
  rw [h j row hj] at hp
  cases hp

theorem limit_before (ho : db.Ordered) (hM : M.configures = false) (hm : Moves M db.board db'.board)
    {limit : Nat} (h : db'.limit scope = some limit) :
    db.limit scope = some limit ∨
      ∀ j job, db.jobs.get? j = some job → scope.covers job = false := by
  have hp := hm.persists ho.coupled
  cases scope with
  | inNamespace n =>
      have hpolicy := congrFun (hm.policy_eq hM) n
      simp only [Db.board] at hpolicy
      refine Or.inl ?_
      obtain ⟨policy', hpolicy', rfl⟩ := Option.map_eq_some_iff.mp h
      rw [hpolicy', Option.map_some] at hpolicy
      obtain ⟨policy, hrow, hlimit⟩ := Option.map_eq_some_iff.mp hpolicy.symm
      simp only [Db.limit, hrow, Option.map_some]
      exact congrArg some (congrArg NamespaceLimit.maxActiveJobs hlimit)
  | inCollection c =>
      cases hcollection : db.collections.get? c with
      | none =>
          refine Or.inr fun j job hj => ?_
          simp only [Scope.covers, decide_eq_false_iff_not]
          intro hmember
          obtain ⟨limit', hlimit⟩ := ho.wired.housed j job.facts c
            (Db.board_job hj) hmember
          simp [Db.board, hcollection] at hlimit
      | some collection =>
          refine Or.inl ?_
          obtain ⟨collection', hcollection', hmode⟩ := Option.bind_eq_some_iff.mp h
          have hkept := hp.collection c collection.limit (by simp [Db.board, hcollection])
          simp only [Db.board, hcollection', Option.map_some, Option.some.injEq] at hkept
          have hmax : collection'.maxActive = collection.maxActive :=
            congrArg CollectionLimit.maxActive hkept
          have harray : collection'.arrayMode = collection.arrayMode :=
            congrArg CollectionLimit.arrayMode hkept
          simp only [Db.limit, hcollection, Option.bind_some, ← hmax, ← harray]
          exact hmode
  | inGraph g =>
      cases hgraph : db.graphs.get? g with
      | none =>
          refine Or.inr fun j job hj => ?_
          simp only [Scope.covers, decide_eq_false_iff_not]
          intro hmember
          obtain ⟨policy, hpolicy⟩ := ho.wired.published j job.facts g
            (Db.board_job hj) hmember
          simp [Db.board, hgraph] at hpolicy
      | some graph =>
          refine Or.inl ?_
          have hkept := hp.graphLimit g graph.maxActive (by simp [Db.board, hgraph])
          have hlimit : db'.board.graphLimit g = some limit := h
          rw [hkept] at hlimit
          simp only [Db.limit, hgraph, Option.map_some]
          exact hlimit

end Frame

section Claim

variable {snapshot db db' : Db}

/-- What has been committed since the snapshot. Edges have only been drawn in graphs
that were published since. -/
structure Since (snapshot db : Db) : Prop where
  ordered : snapshot.Ordered
  moves : Moves .anything snapshot.board db.board
  edges : ∀ key edge, db.board.edge key = some edge →
    snapshot.board.edge key = some edge ∨ snapshot.board.graph key.graphId = none

theorem Since.refl (h : db.Ordered) : Since db db := ⟨h, .refl, fun _ _ he => Or.inl he⟩

theorem Since.effect (h : Since snapshot db) (heffect : Effect M skips db.board db'.board) :
    Since snapshot db' := by
  refine ⟨h.ordered, h.moves.trans heffect.moves.anything, ?_⟩
  intro key edge he
  obtain hold | hnew := heffect.edges key edge he
  · exact h.edges key edge hold
  · refine Or.inr ?_
    cases hgraph : snapshot.board.graph key.graphId with
    | none => rfl
    | some policy =>
        have hkept := (h.moves.persists h.ordered.coupled).graph _ policy hgraph
        rw [hnew] at hkept
        cases hkept

theorem reclaim_spec (h : snapshot.reclaim codec env locked db j = some (job, c)) :
    c.jobId = j ∧ db.jobs.get? j = some job ∧
      ∃ policy, db.policies.get? job.namespaceId = some policy ∧
        snapshot.candidate codec env j job policy = some c := by
  simp only [Db.reclaim, Option.bind_eq_bind, Option.bind_eq_some_iff, Option.pure_def,
    Option.some.injEq, Prod.mk.injEq] at h
  obtain ⟨row, hrow, _, -, policy, hpolicy, c', hcandidate, rfl, rfl⟩ := h
  exact ⟨(candidate_spec hcandidate).1, hrow, policy, hpolicy, hcandidate⟩

theorem claim_spec (h : snapshot.claim codec env locked db = some (job, c)) :
    db.jobs.get? c.jobId = some job ∧
      ∃ policy, db.policies.get? job.namespaceId = some policy ∧
        snapshot.candidate codec env c.jobId job policy = some c := by
  obtain ⟨row, -, hrow⟩ := Option.bind_eq_some_iff.mp h
  obtain ⟨hid, hrest⟩ := reclaim_spec hrow
  rw [hid]
  exact hrest

theorem room_of_candidate {policy : PolicyRow} (hs : Since snapshot db)
    (hpolicy : db.policies.get? job.namespaceId = some policy)
    (h : snapshot.candidate codec env c.jobId job policy = some c)
    (hcovers : scope.covers job = true) {limit : Nat} (hlimit : db.limit scope = some limit) :
    snapshot.activeIn scope < limit := by
  obtain ⟨-, -, -, -, hnamespace, hcollection, hgraph⟩ := candidate_spec h
  have hp := hs.moves.persists hs.ordered.coupled
  cases scope with
  | inNamespace n =>
      cases of_decide_eq_true hcovers
      simp only [Db.limit, hpolicy, Option.map_some, Option.some.injEq] at hlimit
      rw [← hlimit]
      exact hnamespace
  | inCollection c =>
      have hmember : job.grouping.collectionId = some c := of_decide_eq_true hcovers
      simp only [Db.collectionAdmits, hmember] at hcollection
      split at hcollection
      · cases hcollection
      · rename_i row hrow
        have hkept := hp.collection c row.limit (by simp [Db.board, hrow])
        obtain ⟨row', hrow', hmode⟩ := Option.bind_eq_some_iff.mp hlimit
        rw [Option.ite_none_left_eq_some] at hmode
        obtain ⟨hmode, hmax⟩ := hmode
        cases hmax
        simp only [Db.board, hrow', Option.map_some, Option.some.injEq] at hkept
        have hmax : row'.maxActive = row.maxActive := congrArg CollectionLimit.maxActive hkept
        have harray : row'.arrayMode = row.arrayMode := congrArg CollectionLimit.arrayMode hkept
        rw [harray] at hmode
        have hless : snapshot.activeInCollection c < row.maxActive := by
          simpa [hmode] using hcollection
        rw [hmax]
        exact hless
  | inGraph g =>
      have hmember : job.grouping.graphId = some g := of_decide_eq_true hcovers
      simp only [Db.graphAdmits, hmember] at hgraph
      split at hgraph
      · cases hgraph
      · rename_i row hrow
        rw [Bool.and_eq_true, decide_eq_true_eq] at hgraph
        have hkept := hp.graphLimit g row.maxActive (by simp [Db.board, hrow])
        have hlimit' : db.board.graphLimit g = some limit := hlimit
        rw [hkept] at hlimit'
        cases hlimit'
        exact hgraph.1

theorem ready_of_candidate {policy : PolicyRow} (hs : Since snapshot db) (ho : db.Ordered)
    (hjob : db.jobs.get? c.jobId = some job)
    (h : snapshot.candidate codec env c.jobId job policy = some c)
    (hgraph : job.grouping.graphId ≠ none) :
    ∀ key edge, db.board.edge key = some edge → key.downstreamJobId = c.jobId →
      db.board.Satisfied key edge := by
  intro key edge he hdown
  obtain ⟨-, -, -, -, -, -, hadmits⟩ := candidate_spec h
  have hp := hs.moves.persists hs.ordered.coupled
  obtain hold | hnew := hs.edges key edge he
  · exact (satisfied_of_graphAdmits hs.ordered.wired hadmits hgraph key edge hold hdown).persists hp
  · -- The edge is in the graph of its downstream, which the snapshot knew.
    obtain ⟨D, hD, hDg⟩ := ho.wired.downstream key edge he
    rw [hdown] at hD
    cases hD.symm.trans (Db.board_job hjob)
    have hmember : job.grouping.graphId = some key.graphId := hDg
    simp only [Db.graphAdmits, hmember] at hadmits
    split at hadmits
    · cases hadmits
    · rename_i row hrow
      simp [Db.board, hrow] at hnew

end Claim

/-- A claimed job waits with its dependencies satisfied, and its scopes, whose rows are
locked, have room for it. -/
structure Claimed (db : Db) (held : List RowKey) (c : AssignmentCandidate) (job : JobRow) :
    Prop where
  row : db.jobs.get? c.jobId = some job
  namespaceId : c.namespaceId = job.namespaceId
  locked : RowKey.job c.jobId ∈ held
  ready : job.grouping.graphId ≠ none → ∀ key edge, db.board.edge key = some edge →
    key.downstreamJobId = c.jobId → db.board.Satisfied key edge
  room : ∀ scope, scope.covers job = true → scope.row ∈ held ∧
    ∀ limit, db.limit scope = some limit → db.activeIn scope < limit

theorem claimed_of_claim {snapshot db : Db} (hs : Since snapshot db) (ho : db.Ordered)
    (h : snapshot.claim codec env locked db = some (job, c))
    (hcounts : ∀ scope ∈ Scope.all job, ∀ limit, db.limit scope = some limit →
      limit ≤ snapshot.activeIn scope ∨ db.activeIn scope < limit)
    (held : List RowKey) :
    Claimed db (held ++ .job c.jobId :: (Scope.all job).map Scope.row) c job := by
  obtain ⟨hjob, policy, hpolicy, hcandidate⟩ := claim_spec h
  refine ⟨hjob, (candidate_spec hcandidate).2.1, List.mem_append_right _ List.mem_cons_self,
    ready_of_candidate hs ho hjob hcandidate, ?_⟩
  intro scope hcovers
  have hmem := Scope.mem_all.mpr hcovers
  refine ⟨List.mem_append_right _ (List.mem_cons_of_mem _ (List.mem_map_of_mem hmem)), ?_⟩
  intro limit hlimit
  have hroom := room_of_candidate hs hpolicy hcandidate hcovers hlimit
  exact (hcounts scope hmem limit hlimit).resolve_left (Nat.not_le.mpr hroom)

section Claimed

variable {db db' : Db} {held : List RowKey}

/-- A claim stands while its job is left alone and its scopes do not fill up. -/
theorem Claimed.kept (h : Claimed db held c job) (ho : db.Ordered) (hM : M.configures = false)
    (heffect : Effect M skips db.board db'.board) (hsame : ∀ k ∈ held, db.sameRow k db' = true)
    (hcounts : ∀ scope, scope.covers job = true → db'.activeIn scope ≤ db.activeIn scope) :
    Claimed db' held c job := by
  have hrow : db'.jobs.get? c.jobId = some job := by
    rw [← of_decide_eq_true (hsame _ h.locked)]
    exact h.row
  refine ⟨hrow, h.namespaceId, h.locked, ?_, ?_⟩
  · intro hgraph key edge he hdown
    obtain hold | hnew := heffect.edges key edge he
    · exact (h.ready hgraph key edge hold hdown).persists (heffect.moves.persists ho.coupled)
    · obtain ⟨D, hD, hDg⟩ := (ho.moves heffect.moves).wired.downstream key edge he
      rw [hdown] at hD
      cases hD.symm.trans (Db.board_job hrow)
      obtain ⟨policy, hpolicy⟩ := ho.wired.published c.jobId job.facts key.graphId
        (Db.board_job h.row) hDg
      rw [hnew] at hpolicy
      cases hpolicy
  · intro scope hcovers
    obtain ⟨hheld, hroom⟩ := h.room scope hcovers
    refine ⟨hheld, fun limit hlimit => ?_⟩
    obtain hbefore | hempty := limit_before ho hM heffect.moves hlimit
    · exact lt_of_le_of_lt (hcounts scope hcovers) (hroom limit hbefore)
    · rw [hempty c.jobId job h.row] at hcovers
      cases hcovers

theorem Claimed.effect {ids : DispatchIds} (h : Claimed db held c job)
    (hoffer : offerAssignment codec env ids c db = .ok db') :
    Effect .dispatch (fun _ => false) db.board db'.board ∧ Only c.jobId db.board db'.board :=
  effect_offerAssignment hoffer h.row h.namespaceId h.ready

theorem Claimed.within {ids : DispatchIds} (h : Claimed db held c job) (ho : db.Ordered)
    (hdb : db.WithinLimits) (hoffer : offerAssignment codec env ids c db = .ok db') :
    db'.WithinLimits := by
  obtain ⟨heffect, honly⟩ := h.effect hoffer
  rw [Db.withinLimits_iff] at hdb ⊢
  intro scope limit hlimit
  have hle := activeIn_only ho.coupled heffect.moves honly h.row scope
  obtain hbefore | hempty := limit_before ho rfl heffect.moves hlimit
  · split at hle
    · rename_i hcovers
      have hroom := (h.room scope hcovers).2 limit hbefore
      omega
    · have hwithin := hdb scope limit hbefore
      omega
  · have hnone := activeIn_eq_zero hempty
    rw [hempty c.jobId job h.row, if_neg (by simp)] at hle
    omega

end Claimed

/-- What a session can rely on at its stage. -/
def DispatchHolds (db : Db) (s : Session Coordinator RowKey) : Prop :=
  match s.state.stage with
  | .opening | .idle => True
  | .claiming snapshot => Since snapshot db
  | .claimed candidate => ∃ job, Claimed db s.held candidate job

theorem DispatchHolds.kept {db db' : Db} {s : Session Coordinator RowKey} (h : DispatchHolds db s)
    (ho : db.Ordered) (hM : M.configures = false) (heffect : Effect M skips db.board db'.board)
    (hsame : ∀ k ∈ s.held, db.sameRow k db' = true)
    (hcounts : ∀ c job, s.state.stage = .claimed c → Claimed db s.held c job →
      ∀ scope, scope.covers job = true → db'.activeIn scope ≤ db.activeIn scope) :
    DispatchHolds db' s := by
  unfold DispatchHolds at h ⊢
  cases hstage : s.state.stage with
  | opening | idle => trivial
  | claiming snapshot =>
      simp only [hstage] at h
      exact h.effect heffect
  | claimed c =>
      simp only [hstage] at h
      obtain ⟨job, hclaimed⟩ := h
      exact ⟨job, hclaimed.kept ho hM heffect hsame (hcounts c job hstage hclaimed)⟩

/-- What every committed state satisfies. -/
structure Db.Bounded (db : Db) : Prop where
  ordered : db.Ordered
  within : db.WithinLimits

theorem Db.Bounded.call {db : Db} (h : db.Bounded) (codec : Codec) (call : LifeCall) :
    (call.1.apply codec db).Bounded := by
  have hm := moves_apply codec call.1 h.ordered
  refine ⟨h.ordered.moves hm, ?_⟩
  have hwithin := (Db.withinLimits_iff db).mp h.within
  rw [Db.withinLimits_iff]
  intro scope limit hlimit
  have hle := activeIn_le call.2.1 h.ordered.coupled hm scope
  obtain hbefore | hempty := limit_before h.ordered call.2.2 hm hlimit
  · exact hle.trans (hwithin scope limit hbefore)
  · have hnone := activeIn_eq_zero hempty
    omega

theorem Coordinator.commit_some {coordinator : Coordinator} {db db' : Db}
    (h : coordinator.commit codec db = some db') :
    db' = db ∨ ∃ c, coordinator.stage = .claimed c ∧
      offerAssignment codec coordinator.env coordinator.ids c db = .ok db' := by
  unfold Coordinator.commit at h
  split at h
  · rename_i c hstage
    cases hoffer : offerAssignment codec coordinator.env coordinator.ids c db with
    | error _ =>
        rw [hoffer] at h
        cases h
    | ok new =>
        rw [hoffer] at h
        cases h
        exact Or.inr ⟨c, hstage, hoffer⟩
  · exact Or.inl (Option.some.inj h).symm
  · cases h
  · cases h

theorem maintains_coordinating (codec : Codec) :
    (coordinating codec).Maintains (fun w a => countsStand codec w a = true) Db.Bounded
      DispatchHolds where
  start _ _ _ := trivial
  advance w i s hw hallow hs := by
    have hholds := hw.sessions i s hs
    unfold DispatchHolds at hholds
    simp only [coordinating, DispatchHolds, Coordinator.advance, Coordinator.wants]
    cases hstage : s.state.stage with
    | opening => exact Since.refl hw.committed.ordered
    | idle => trivial
    | claimed c =>
        rw [hstage] at hholds
        simp only [List.append_nil]
        exact hholds
    | claiming snapshot =>
        rw [hstage] at hholds
        cases hclaim : snapshot.claim codec s.state.env (w.others i) w.committed with
        | none => simp only [hclaim]
        | some claim =>
            obtain ⟨job, c⟩ := claim
            simp only [hclaim]
            simp only [countsStand, hs, hstage, hclaim, List.all_eq_true, Option.all_eq_true,
              Bool.or_eq_true, decide_eq_true_eq] at hallow
            exact ⟨job, claimed_of_claim hholds hw.committed.ordered hclaim hallow _⟩
  call w c hw _ := hw.committed.call codec c
  frame_call w c t hw _ ht hsame := by
    have heffect := effect_apply codec c.1 hw.committed.ordered.coupled hw.committed.ordered.wired
    refine ht.kept hw.committed.ordered c.2.2 heffect hsame ?_
    intro candidate job _ _ scope _
    exact activeIn_le c.2.1 hw.committed.ordered.coupled heffect.moves scope
  commit w i s new hw _ hs hnew := by
    obtain rfl | ⟨c, hstage, hoffer⟩ := Coordinator.commit_some hnew
    · exact hw.committed
    · have hholds := hw.sessions i s hs
      simp only [DispatchHolds, hstage] at hholds
      obtain ⟨job, hclaimed⟩ := hholds
      exact ⟨hw.committed.ordered.moves (hclaimed.effect hoffer).1.moves,
        hclaimed.within hw.committed.ordered hw.committed.within hoffer⟩
  frame_commit w i s new t hw _ hs hnew ht hsame hapart := by
    obtain rfl | ⟨c, hstage, hoffer⟩ := Coordinator.commit_some hnew
    · exact ht
    · have hholds := hw.sessions i s hs
      simp only [DispatchHolds, hstage] at hholds
      obtain ⟨job, hclaimed⟩ := hholds
      obtain ⟨heffect, honly⟩ := hclaimed.effect hoffer
      refine ht.kept hw.committed.ordered rfl heffect hsame ?_
      -- The row of a limit is with one of the two, so their jobs share no scope.
      intro candidate job' _ hclaimed' scope hcovers
      have hle := activeIn_only hw.committed.ordered.coupled heffect.moves honly hclaimed.row scope
      rw [if_neg, Nat.add_zero] at hle
      · exact hle
      · intro hshared
        exact hapart _ (hclaimed'.room scope hcovers).1 (hclaimed.room scope hshared).1

/-- Every interleaving of coordinators stays within the limits on active jobs, if no
dispatch gets its locks after the room it has counted was taken. -/
theorem dispatches_keep_limits {db : Db} (hdb : Db.Arises codec db) (hwithin : db.WithinLimits)
    {w : DispatchWorld}
    (h : Transition.Reaches (coordinating codec).Step (fun w a => countsStand codec w a = true)
      ⟨db, .empty⟩ w) : w.committed.WithinLimits := by
  have hstart : db.Bounded := ⟨ordered_of_arises hdb, hwithin⟩
  exact ((maintains_coordinating codec).holds (Protocol.holds_quiet hstart) h).committed.within

theorem withinLimits_of_idle {db : Db} (h : (db.jobs.any fun _ job => job.isActive) = false) :
    db.WithinLimits := by
  rw [Db.withinLimits_iff]
  intro scope limit _
  have hnone : db.activeIn scope = 0 := by
    rw [Db.activeIn_eq]
    refine Nat.eq_zero_of_not_pos fun hpos => ?_
    obtain ⟨j, job, hj, hp⟩ := (Table.count_pos_iff _ _).mp hpos
    rw [Bool.and_eq_true, (Table.any_eq_false_iff _ _).mp h j job hj] at hp
    cases hp.2
  omega

theorem Sample.narrow_arises : Db.Arises Sample.codec Sample.narrow := Db.later_run _ _ _

/-- The second coordinator counts the first dispatch and claims nothing. -/
theorem dispatches_keep_limits_one_after_the_other :
    ∃ w : DispatchWorld,
      Transition.Reaches (coordinating Sample.codec).Step
        (fun w a => countsStand Sample.codec w a = true) ⟨Sample.narrow, .empty⟩ w ∧
      w.committed.activeInNamespace 1 = 1 ∧ w.committed.WithinLimits := by
  have hrun : ((Transition.exec
      (fun w a =>
        if countsStand Sample.codec w a then (coordinating Sample.codec).next w a else none)
      ⟨Sample.narrow, .empty⟩ Sample.oneCoordinatorAfterTheOther).map fun w =>
        w.committed.activeInNamespace 1) = some 1 := by decide
  obtain ⟨w, hw, hactive⟩ := Option.map_eq_some_iff.mp hrun
  have hreach := Transition.reaches_of_exec hw
  exact ⟨w, hreach, hactive,
    dispatches_keep_limits Sample.narrow_arises (withinLimits_of_idle (by decide)) hreach⟩

/-- Two coordinators that count side by side both dispatch into the room of one. -/
theorem dispatches_exceed_limits_side_by_side :
    ∃ w : DispatchWorld, Sample.narrow.WithinLimits ∧
      Transition.Reachable (coordinating Sample.codec).Step ⟨Sample.narrow, .empty⟩ w ∧
      w.committed.activeInNamespace 1 = 2 ∧
      (w.committed.policies.get? 1).map (·.maxActiveJobs) = some 1 ∧
      ¬w.committed.WithinLimits := by
  have hrun : ((Transition.exec (coordinating Sample.codec).next ⟨Sample.narrow, .empty⟩
      Sample.coordinatorsSideBySide).map fun w => (w.committed.activeInNamespace 1,
        (w.committed.policies.get? 1).map (·.maxActiveJobs))) = some (2, some 1) := by decide
  obtain ⟨w, hw, hvalues⟩ := Option.map_eq_some_iff.mp hrun
  obtain ⟨hactive, hmax⟩ := Prod.mk.inj hvalues
  refine ⟨w, withinLimits_of_idle (by decide), Transition.reachable_of_exec hw, hactive, hmax, ?_⟩
  intro hwithin
  obtain ⟨policy, hpolicy, hone⟩ := Option.map_eq_some_iff.mp hmax
  have hle := hwithin.namespaces 1 policy hpolicy
  rw [hactive, hone] at hle
  omega

end JobmanControl
