import JobmanControl.Catalog.Placement

/-!
What agents say about themselves. The machine of an agent is written once, when it enrolls
for a generation that allows it. What it can run is in its row as the last report left it,
and every report is stored under the next number, so that the row and the latest report say
the same.
-/

namespace JobmanControl

open Relational

variable {row row' : AgentRow} {a : Id}

section Step

variable {env : Env} {db db' : Db}

theorem AgentStep.of_tables {scheme : TokenScheme} (h : db'.agentTables = db.agentTables) :
    AgentStep scheme env db db' :=
  .same (congrArg AgentTables.agents h) (congrArg AgentTables.capabilitySnapshots h)

theorem Operation.apply_agentTables (codec : Codec) (env : Env) (operation : Operation) (db : Db) :
    (operation.apply codec env db).agentTables = db.agentTables := by
  by_cases hdispatch : ∃ ids, operation = .reconcileOneAssignment ids
  · obtain ⟨ids, rfl⟩ := hdispatch
    obtain ⟨found, hok⟩ | hsame := atomically_cases
        (JobmanControl.reconcileOneAssignment codec env ids) db
    · obtain ⟨-, hsame⟩ | ⟨c, job, _, _, _, _, _, -, -, hdispatches⟩ :=
        reconcileOneAssignment_cases hok
      · exact congrArg Db.agentTables hsame
      · obtain ⟨_, _, _, _, _, _, _, hrest⟩ := hdispatches.rest
        exact (congrArg Db.agentTables hrest).trans rfl
    · exact congrArg Db.agentTables hsame
  · exact (Settled.apply codec env operation db fun ids h => hdispatch ⟨ids, h⟩).agentTables

/-- The tables that only the calls on jobs write. -/
structure WorkTables where
  workloads : Table (Id × String) WorkloadRow
  collections : Table Id CollectionRow
  collectionItems : Table (Id × Nat) MemberRow
  graphs : Table Id GraphRow
  graphNodes : Table (Id × Nat) MemberRow
  graphEdges : Table EdgeKey EdgeRow
  jobs : Table Id JobRow
  runs : Table Id RunRow
  executions : Table Id ExecutionRow
  events : Table Id ExecutionEventRow

def Db.workTables (db : Db) : WorkTables :=
  ⟨db.workloads, db.collections, db.collectionItems, db.graphs, db.graphNodes, db.graphEdges,
    db.jobs, db.runs, db.executions, db.events⟩

/-- A call that is not about jobs. -/
structure Apart (scheme : TokenScheme) (env : Env) (db db' : Db) : Prop where
  agents : AgentStep scheme env db db'
  work : db'.workTables = db.workTables
  offer : ∀ a, (db'.assignments.get? a).map AssignmentRow.facts =
    (db.assignments.get? a).map AssignmentRow.facts

theorem Apart.same {scheme : TokenScheme} (hagents : db'.agents = db.agents)
    (hsnapshots : db'.capabilitySnapshots = db.capabilitySnapshots)
    (hwork : db'.workTables = db.workTables) (hoffer : db'.assignments = db.assignments) :
    Apart scheme env db db' :=
  ⟨.same hagents hsnapshots, hwork, fun a => by rw [hoffer]⟩

theorem ServiceCall.apart (call : ServiceCall) (platform : Platform) (db : Db) :
    (∃ operation, call.operation = .work operation ∧
      call.apply platform db = operation.apply platform.codec call.env db) ∨
    Apart platform.tokens call.env db (call.apply platform db) := by
  refine (call.apply_effect platform db).imp_right fun heffect => ?_
  generalize call.apply platform db = db' at heffect
  cases heffect with
  | cataloged _ hrest =>
      obtain ⟨_, _, _, _, _, _, _, _, _, rfl⟩ := hrest
      exact .same rfl rfl rfl rfl
  | enrolled h =>
      obtain rfl | ⟨binding, henrolling⟩ := enrollAgent_writes h
      · exact .same rfl rfl rfl rfl
      · obtain ⟨_, _, _, _, hrest⟩ := henrolling.rest
        subst hrest
        exact ⟨.enrolled henrolling, rfl, fun _ => rfl⟩
  | credentialed operation hop =>
      have hstep := operation.apply_credentials platform call.env db hop
      obtain ⟨_, _, _, _, _, _, _, hrest⟩ := hstep.rest
      exact ⟨hstep.agents, by rw [hrest]; rfl, fun _ => by rw [hrest]⟩
  | delivered delivered =>
      refine ⟨.same rfl rfl, rfl, fun a => ?_⟩
      dsimp only
      rw [Table.get?_updateWhere]
      cases db.assignments.get? a with
      | none => rfl
      | some row =>
          simp only [Option.map_some]
          split <;> rfl
  | refused | administered | acted | logged | maintained => exact .same rfl rfl rfl rfl

theorem ServiceCall.agentStep (call : ServiceCall) (platform : Platform) (db : Db) :
    AgentStep platform.tokens call.env db (call.apply platform db) := by
  obtain ⟨operation, -, hwork⟩ | hapart := call.apart platform db
  · rw [hwork]
    exact .of_tables (operation.apply_agentTables platform.codec call.env db)
  · exact hapart.agents

end Step

/-! What the agents are known by. -/

/-- A generation that allows the machine of an agent; an empty list allows all. -/
structure GenerationRow.Allows (generation : GenerationRow) (agent : AgentRow) : Prop where
  operatingSystem : allowsValue generation.operatingSystems agent.operatingSystem = true
  architecture : allowsValue generation.architectures agent.architecture = true

/-- Where an agent belongs, and its machine. -/
structure AgentRow.Keeps (row row' : AgentRow) : Prop where
  binding : row'.binding = row.binding
  operatingSystem : row'.operatingSystem = row.operatingSystem
  architecture : row'.architecture = row.architecture

theorem AgentRow.Keeps.refl (row : AgentRow) : row.Keeps row := ⟨rfl, rfl, rfl⟩

theorem AgentRow.Keeps.trans {row₁ row₂ row₃ : AgentRow} (h : row₁.Keeps row₂)
    (h' : row₂.Keeps row₃) : row₁.Keeps row₃ :=
  ⟨h'.binding.trans h.binding, h'.operatingSystem.trans h.operatingSystem,
    h'.architecture.trans h.architecture⟩

theorem GenerationRow.Allows.kept {generation : GenerationRow} (h : generation.Allows row)
    (hkeeps : row.Keeps row') : generation.Allows row' :=
  ⟨hkeeps.operatingSystem ▸ h.operatingSystem, hkeeps.architecture ▸ h.architecture⟩

theorem AgentRow.keeps_seen (env : Env) (row : AgentRow) : row.Keeps (row.seen env) :=
  ⟨rfl, rfl, rfl⟩

theorem AgentRow.keeps_report (env : Env) (capabilities : AgentCapabilities) (revision : Nat)
    (row : AgentRow) : row.Keeps (row.report env capabilities revision) :=
  ⟨rfl, rfl, rfl⟩

/-- What the row of an agent says is what the agent said last: in the report with the highest
number or, if there is none, in its registration. -/
inductive Db.LatestReport (db : Db) (a : Id) (row : AgentRow) : Prop
  | stored (report : CapabilitySnapshotRow) :
      db.capabilitySnapshots.get? (a, row.capabilityRevision) = some report →
      (∀ n other, db.capabilitySnapshots.get? (a, n) = some other → n ≤ row.capabilityRevision) →
      row.Says report → LatestReport db a row
  | registered (env : Env) (binding : EnrollmentBinding) (registration : AgentRegistration) :
      (∀ n, db.capabilitySnapshots.get? (a, n) = none) →
      row = { newAgentRow env binding registration with
        updatedAt := row.updatedAt, lastSeenAt := row.lastSeenAt } → LatestReport db a row

/-- The machines of agents are allowed, and their reports are known. -/
structure Db.Reporting (db : Db) : Prop where
  allowed : ∀ a row, db.agents.get? a = some row → ∃ generation,
    db.generations.get? row.targetGenerationId = some generation ∧ generation.Allows row
  latest : ∀ a row, db.agents.get? a = some row → db.LatestReport a row
  owned : ∀ a n report, db.capabilitySnapshots.get? (a, n) = some report →
    ∃ row, db.agents.get? a = some row

section Step

variable {scheme : TokenScheme} {env : Env} {db db' : Db}

theorem lookupEnrollment_generation {tokenHash : String} {binding : EnrollmentBinding}
    (h : lookupEnrollment db tokenHash = some binding) :
    db.generations.get? binding.token.targetGenerationId = some binding.generation := by
  simp only [lookupEnrollment, Option.bind_eq_bind, Option.bind_eq_some_iff, Option.pure_def,
    Option.some.injEq] at h
  obtain ⟨entry, -, target, -, generation, hgeneration, -, -, rfl⟩ := h
  exact hgeneration

theorem AgentStep.kept (h : AgentStep scheme env db db') (hrow : db.agents.get? a = some row) :
    ∃ row', db'.agents.get? a = some row' ∧ row.Keeps row' := by
  have hmodify : ∀ (id : Id) (f : AgentRow → AgentRow), (∀ row : AgentRow, row.Keeps (f row)) →
      db'.agents = db.agents.modify id f →
      ∃ row', db'.agents.get? a = some row' ∧ row.Keeps row' := by
    intro id f hf hagents
    rw [hagents, Table.get?_modify, hrow]
    split
    · exact ⟨f row, rfl, hf row⟩
    · exact ⟨row, rfl, .refl row⟩
  cases h with
  | same hagents => exact ⟨row, hagents ▸ hrow, .refl row⟩
  | seen id hagents => exact hmodify id _ (AgentRow.keeps_seen env) hagents
  | reported _ _ _ _ hagents => exact hmodify _ _ (AgentRow.keeps_report env _ _) hagents
  | @enrolled token registration id binding henrolling =>
      exact ⟨row, Table.insert?_keeps henrolling.agents hrow, .refl row⟩

theorem AgentStep.origin (h : AgentStep scheme env db db') (hrow' : db'.agents.get? a = some row') :
    (∃ row, db.agents.get? a = some row ∧ row.Keeps row') ∨
      ∃ token registration binding,
        Enrolling scheme env token registration a binding db db' ∧
        row' = newAgentRow env binding registration := by
  have hold : (∀ token registration id binding,
      Enrolling scheme env token registration id binding db db' → a ≠ id) →
      ∃ row, db.agents.get? a = some row := by
    intro hnew
    cases h with
    | same hagents => exact ⟨row', hagents ▸ hrow'⟩
    | seen id hagents | reported _ _ _ _ hagents =>
        rw [hagents, Table.get?_modify] at hrow'
        split at hrow'
        · obtain ⟨row, hrow, -⟩ := Option.map_eq_some_iff.mp hrow'
          exact ⟨row, hrow⟩
        · exact ⟨row', hrow'⟩
    | enrolled henrolling =>
        rw [Table.get?_insert henrolling.agents, if_neg (hnew _ _ _ _ henrolling)] at hrow'
        exact ⟨row', hrow'⟩
  by_cases hnew : ∃ token registration binding,
      Enrolling scheme env token registration a binding db db'
  · obtain ⟨token, registration, binding, henrolling⟩ := hnew
    have hrow := hrow'
    rw [Table.get?_insert henrolling.agents, if_pos rfl] at hrow
    cases hrow
    exact Or.inr ⟨token, registration, binding, henrolling, rfl⟩
  · obtain ⟨row, hrow⟩ := hold fun token registration id binding henrolling heq =>
      hnew ⟨token, registration, binding, heq ▸ henrolling⟩
    obtain ⟨row'', hrow'', hkeeps⟩ := h.kept hrow
    cases hrow''.symm.trans hrow'
    exact Or.inl ⟨row, hrow, hkeeps⟩

namespace Db.Reporting

theorem empty : Db.empty.Reporting :=
  ⟨fun _ _ h => (by cases h), fun _ _ h => (by cases h), fun _ _ _ h => (by cases h)⟩

theorem latest_same (h : db.LatestReport a row)
    (hsame : ∀ n, db'.capabilitySnapshots.get? (a, n) = db.capabilitySnapshots.get? (a, n)) :
    db'.LatestReport a row := by
  cases h with
  | stored report hreport hlast hstates =>
      exact .stored report ((hsame _).trans hreport)
        (fun n other hother => hlast n other ((hsame n).symm.trans hother)) hstates
  | registered env binding registration hnone hrow =>
      exact .registered env binding registration (fun n => (hsame n).trans (hnone n)) hrow

theorem latest_seen (env : Env) (h : db.LatestReport a row) : db.LatestReport a (row.seen env) := by
  cases h with
  | stored report hreport hlast hstates => exact .stored report hreport hlast { hstates with }
  | registered env' binding registration hnone hrow =>
      refine .registered env' binding registration hnone ?_
      rw [hrow]
      rfl

theorem latest_bound (h : db.LatestReport a row) {n : Nat} {report : CapabilitySnapshotRow}
    (hreport : db.capabilitySnapshots.get? (a, n) = some report) : n ≤ row.capabilityRevision := by
  cases h with
  | stored _ _ hlast => exact hlast n report hreport
  | registered _ _ _ hnone => cases (hnone n).symm.trans hreport

theorem allowed_step (h : db.Reporting) (hstep : AgentStep scheme env db db')
    (hkept : ∀ g generation, db.generations.get? g = some generation →
      db'.generations.get? g = some generation) (hrow' : db'.agents.get? a = some row') :
    ∃ generation,
    db'.generations.get? row'.targetGenerationId = some generation ∧ generation.Allows row' := by
  obtain ⟨row, hrow, hkeeps⟩ | ⟨token, registration, binding, henrolling, rfl⟩ := hstep.origin hrow'
  · obtain ⟨generation, hgeneration, hallows⟩ := h.allowed a row hrow
    have hsame : row'.targetGenerationId = row.targetGenerationId :=
      congrArg AgentBinding.targetGenerationId hkeeps.binding
    exact ⟨generation, hkept _ _ (hsame ▸ hgeneration), hallows.kept hkeeps⟩
  · exact ⟨binding.generation, hkept _ _ (lookupEnrollment_generation henrolling.bound),
      henrolling.operatingSystem, henrolling.architecture⟩

theorem step (h : db.Reporting) (hstep : AgentStep scheme env db db')
    (hkept : ∀ g generation, db.generations.get? g = some generation →
      db'.generations.get? g = some generation) : db'.Reporting := by
  have howned : (∀ key report, db'.capabilitySnapshots.get? key = some report →
      ∃ row, db.agents.get? key.1 = some row) → ∀ a n report,
      db'.capabilitySnapshots.get? (a, n) = some report → ∃ row, db'.agents.get? a = some row := by
    intro hall a n report hreport
    obtain ⟨row, hrow⟩ := hall (a, n) report hreport
    obtain ⟨row', hrow', -⟩ := hstep.kept hrow
    exact ⟨row', hrow'⟩
  refine ⟨fun a row' => h.allowed_step hstep hkept, ?_, howned ?_⟩
  · intro a row' hrow'
    cases hstep with
    | same hagents hsnapshots =>
        rw [hagents] at hrow'
        exact latest_same (h.latest a row' hrow') fun n => by rw [hsnapshots]
    | seen id hagents hsnapshots =>
        suffices hlatest : db.LatestReport a row' from
          latest_same hlatest fun n => by rw [hsnapshots]
        rw [hagents, Table.get?_modify] at hrow'
        split at hrow'
        · obtain ⟨row, hrow, rfl⟩ := Option.map_eq_some_iff.mp hrow'
          exact latest_seen env (h.latest a row hrow)
        · exact h.latest a row' hrow'
    | @enrolled token registration id binding henrolling =>
        obtain ⟨agents, sessions, tokens, audit, rfl⟩ := henrolling.rest
        have hfree := Table.insert?_free henrolling.agents
        rw [Table.get?_insert henrolling.agents] at hrow'
        split at hrow'
        · rename_i ha
          subst ha
          cases hrow'
          refine .registered env binding registration (fun n => ?_) rfl
          cases hreport : db.capabilitySnapshots.get? (a, n) with
          | none => rfl
          | some report =>
              obtain ⟨row, hrow⟩ := h.owned a n report hreport
              cases hfree.symm.trans hrow
        · exact latest_same (h.latest a row' hrow') fun n => rfl
    | @reported id agent capabilities report _ hagent hstates hinsert hagents =>
        have hget := Table.get?_insert hinsert
        rw [hagents, Table.get?_modify] at hrow'
        split at hrow'
        · rename_i ha
          subst ha
          rw [hagent] at hrow'
          cases hrow'
          refine .stored report ((hget _).trans (if_pos rfl)) (fun n other hother => ?_) hstates
          rw [hget] at hother
          split at hother
          · rename_i hn
            exact Nat.le_of_eq (congrArg Prod.snd hn)
          · exact Nat.le_succ_of_le (latest_bound (h.latest a agent hagent) hother)
        · rename_i ha
          refine latest_same (h.latest a row' hrow') fun n => ?_
          rw [hget, if_neg fun hn => ha (congrArg Prod.fst hn)]
  · intro key report hreport
    cases hstep with
    | same _ hsnapshots => exact h.owned key.1 key.2 report (hsnapshots ▸ hreport)
    | seen _ _ hsnapshots => exact h.owned key.1 key.2 report (hsnapshots ▸ hreport)
    | enrolled henrolling =>
        obtain ⟨agents, sessions, tokens, audit, rfl⟩ := henrolling.rest
        exact h.owned key.1 key.2 report hreport
    | reported _ hagent _ hinsert _ =>
        rw [Table.get?_insert hinsert] at hreport
        split at hreport
        · rename_i hkey
          rw [hkey]
          exact ⟨_, hagent⟩
        · exact h.owned key.1 key.2 report hreport

end Db.Reporting

end Step

end JobmanControl
