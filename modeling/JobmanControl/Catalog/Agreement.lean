import Mathlib.Data.List.Dedup
import Mathlib.Data.Set.Finite.Lattice
import JobmanControl.Catalog.Generations
import JobmanControl.Catalog.Suitability

/-!
Three readings of the requirement lists. An enrollment takes an empty list of the generation
to allow every machine, and the coordinator takes the lists of a workload as alternatives;
the resolution of a target wants every required name to be in the list of the generation,
whatever the list is for. What it accepts can be served. What it refuses could be served as
well, unless the lists have nothing in common.
-/

namespace JobmanControl

open Relational

variable {db db' : Db} {g t a e : Id} {target : TargetRow} {values required : List String}
  {field : String} {allowed : Option (List String)}

/-! What a list of names that was checked consists of. -/

theorem validateSortedSet_mem {required : Bool}
    (h : validateSortedSet field values allowed required = .ok ()) :
    values.length ≤ 1024 ∧
      ∀ value ∈ values, validName value = true ∧ ∀ names ∈ allowed, value ∈ names := by
  simp only [validateSortedSet, bind_ok_iff, ensure_ok_iff] at h
  obtain ⟨-, -, -, ⟨hlength, -⟩, hvalues⟩ := h
  exact ⟨hlength, validateSortedValues_mem hvalues⟩

theorem validateSortedValues_of_nodup {previous : Option String}
    (hvalid : ∀ value ∈ values, validName value = true ∧ ∀ names ∈ allowed, value ∈ names)
    (hnodup : values.Nodup) (hprevious : ∀ value ∈ values, previous ≠ some value) :
    validateSortedValues field allowed previous values = .ok () := by
  induction values generalizing previous with
  | nil => rfl
  | cons value rest ih =>
      obtain ⟨hname, hallowed⟩ := hvalid value List.mem_cons_self
      obtain ⟨hnotin, hrest⟩ := List.nodup_cons.mp hnodup
      rw [validateSortedValues, ensure_of_true hname, ok_bind,
        ensure_of_true (hprevious value List.mem_cons_self), ok_bind, ensure_of_true hallowed,
        ok_bind]
      refine ih (fun other hmem => hvalid other (List.mem_cons_of_mem _ hmem)) hrest ?_
      rintro other hmem heq
      exact hnotin (Option.some.inj heq ▸ hmem)

theorem isSorted_of_pairwise (h : values.Pairwise (· ≤ ·)) : isSorted values = true := by
  induction values with
  | nil => rfl
  | cons value rest ih =>
      obtain ⟨hfirst, hrest⟩ := List.pairwise_cons.mp h
      have hsorted := ih hrest
      cases rest with
      | nil => rfl
      | cons next rest =>
          have hle : ¬ next < value := String.not_lt.mpr (hfirst next List.mem_cons_self)
          unfold isSorted at hsorted ⊢
          rw [List.tail_cons] at hsorted ⊢
          rw [List.zip_cons_cons, List.all_cons, hsorted]
          simpa using hle

theorem exists_sortedSet (field : String) {names : List String}
    (hvalid : ∀ name ∈ names, validName name = true) (hbound : names.dedup.length ≤ 1024) :
    ∃ declared, validateSortedSet field declared none false = .ok () ∧
      ∀ name ∈ names, name ∈ declared := by
  let declared := names.dedup.mergeSort fun a b => decide (a ≤ b)
  have hmem : ∀ name, name ∈ declared ↔ name ∈ names := fun name => by
    rw [List.mem_mergeSort, List.mem_dedup]
  have hlength : declared.length ≤ 1024 := by
    rwa [List.length_mergeSort]
  have hnodup : declared.Nodup := (List.mergeSort_perm _ _).nodup_iff.mpr names.nodup_dedup
  have hpairwise : declared.Pairwise fun a b => decide (a ≤ b) = true := by
    refine List.pairwise_mergeSort (fun a b c hab hbc => ?_) (fun a b => ?_) _
    · rw [decide_eq_true_iff] at hab hbc ⊢
      exact String.le_trans hab hbc
    · rw [Bool.or_eq_true, decide_eq_true_iff, decide_eq_true_iff]
      exact String.le_total a b
  have hsorted := isSorted_of_pairwise (hpairwise.imp fun h => decide_eq_true_iff.mp h)
  refine ⟨declared, ?_, fun name => (hmem name).mpr⟩
  rw [validateSortedSet, ensure_of_true (by simp), ok_bind, ensure_of_true ⟨hlength, hsorted⟩,
    ok_bind]
  exact validateSortedValues_of_nodup
    (fun value hvalue => ⟨hvalid value ((hmem value).mp hvalue), fun _ h => by cases h⟩) hnodup
    fun _ _ h => by cases h

/-! What stored generations and agents consist of. -/

def knownRuntimes : List String := ["native", "container"]

structure GenerationRow.Valid (generation : GenerationRow) : Prop where
  runtimes : ∀ runtime ∈ generation.runtimes, runtime ∈ knownRuntimes
  operatingSystems : ∀ name ∈ generation.operatingSystems, validName name = true
  architectures : ∀ name ∈ generation.architectures, validName name = true
  capabilities : ∀ name ∈ generation.capabilities, validName name = true
  bounded : generation.capabilities.length ≤ 1024

/-- What an agent says about itself is checked the same way at its enrollment and later. -/
structure ValidAgent (os arch : String) (kinds declared : List String) : Prop where
  operatingSystem : validName os = true
  architecture : validName arch = true
  runtimes : ∀ runtime ∈ kinds, runtime ∈ knownRuntimes
  capabilities : ∀ name ∈ declared, validName name = true
  bounded : declared.length ≤ 1024

abbrev AgentRow.Valid (row : AgentRow) : Prop :=
  ValidAgent row.operatingSystem row.architecture row.runtimes row.capabilities

abbrev AgentFacts.Valid (facts : AgentFacts) : Prop :=
  ValidAgent facts.operatingSystem facts.architecture facts.runtimes facts.capabilities

theorem newGenerationRow_valid {spec : TargetSpec} (h : validateTargetSpec spec = .ok ())
    (namespaceId targetId : Id) (n : Nat) :
    (newGenerationRow namespaceId targetId n spec).Valid := by
  simp only [validateTargetSpec, bind_ok_iff] at h
  obtain ⟨-, -, -, -, -, -, _, hruntimes, _, hos, _, harch, _, hcapabilities, -⟩ := h
  obtain ⟨-, hruntimes⟩ := validateSortedSet_mem hruntimes
  obtain ⟨-, hos⟩ := validateSortedSet_mem hos
  obtain ⟨-, harch⟩ := validateSortedSet_mem harch
  obtain ⟨hbounded, hcapabilities⟩ := validateSortedSet_mem hcapabilities
  exact ⟨fun runtime hmem => (hruntimes runtime hmem).2 _ rfl, fun name hmem => (hos name hmem).1,
    fun name hmem => (harch name hmem).1, fun name hmem => (hcapabilities name hmem).1, hbounded⟩

theorem validateAgentFacts_valid {facts : AgentFacts} (h : validateAgentFacts facts = .ok ()) :
    facts.Valid := by
  simp only [validateAgentFacts, bind_ok_iff, ensure_ok_iff] at h
  obtain ⟨-, ⟨-, -, -, hos, harch⟩, -, -, _, -, _, hruntimes, hcapabilities⟩ := h
  obtain ⟨-, hruntimes⟩ := validateSortedSet_mem hruntimes
  obtain ⟨hbounded, hcapabilities⟩ := validateSortedSet_mem hcapabilities
  exact ⟨hos, harch, fun runtime hmem => (hruntimes runtime hmem).2 _ rfl,
    fun name hmem => (hcapabilities name hmem).1, hbounded⟩

section Step

variable {scheme : TokenScheme} {env : Env}

theorem Enrolling.facts {token : String} {registration : AgentRegistration}
    {binding : EnrollmentBinding} (h : Enrolling scheme env token registration a binding db db') :
    registration.toAgentFacts.Valid := by
  have hvalid := h.valid
  simp only [validateAgentRegistration, bind_ok_iff] at hvalid
  obtain ⟨-, -, -, -, -, -, -, -, hfacts⟩ := hvalid
  exact validateAgentFacts_valid hfacts

theorem AgentStep.valid (h : AgentStep scheme env db db')
    (hvalid : ∀ a row, db.agents.get? a = some row → row.Valid) {row' : AgentRow}
    (hrow' : db'.agents.get? a = some row') : row'.Valid := by
  cases h with
  | same hagents => exact hvalid a row' (hagents ▸ hrow')
  | seen id hagents =>
      rw [hagents, Table.get?_modify] at hrow'
      split at hrow'
      · obtain ⟨row, hrow, rfl⟩ := Option.map_eq_some_iff.mp hrow'
        exact hvalid a row hrow
      · exact hvalid a row' hrow'
  | enrolled henrolling =>
      rw [Table.get?_insert henrolling.agents] at hrow'
      split at hrow'
      · cases hrow'
        exact henrolling.facts
      · exact hvalid a row' hrow'
  | reported hcapabilities hagent _ _ hagents =>
      rw [hagents, Table.get?_modify] at hrow'
      split at hrow'
      · obtain ⟨row, hrow, rfl⟩ := Option.map_eq_some_iff.mp hrow'
        have hold := hvalid a row hrow
        simp only [validateAgentCapabilities, bind_ok_iff] at hcapabilities
        obtain ⟨-, -, hfacts⟩ := hcapabilities
        exact { validateAgentFacts_valid hfacts with
          operatingSystem := hold.operatingSystem, architecture := hold.architecture }
      · exact hvalid a row' hrow'

theorem CatalogStep.generation_valid (h : CatalogStep env db db')
    (hvalid : ∀ g row, db.generations.get? g = some row → row.Valid) {generation : GenerationRow}
    (hrow : db'.generations.get? g = some generation) :
    generation.Valid := by
  cases h with
  | same hsame | housed _ hsame =>
      simp only [Db.catalog, Prod.mk.injEq] at hsame
      exact hvalid g generation (hsame.2.2.1 ▸ hrow)
  | created hcreating =>
      obtain ⟨_, _, _, _, _, rfl⟩ := hcreating.rest
      have hinsert := Table.get?_insert hcreating.generation g
      rw [hrow] at hinsert
      split at hinsert
      · cases hinsert
        exact newGenerationRow_valid hcreating.valid _ _ _
      · exact hvalid g generation hinsert.symm
  | selected _ hselecting =>
      obtain ⟨_, _, _, _, _, rfl⟩ := hselecting.rest
      have hinsert := Table.get?_insert hselecting.generation g
      have hspec := hselecting.valid
      simp only [validateTargetGenerationChange, bind_ok_iff] at hspec
      obtain ⟨-, -, hspec⟩ := hspec
      rw [hrow] at hinsert
      split at hinsert
      · cases hinsert
        exact newGenerationRow_valid hspec _ _ _
      · exact hvalid g generation hinsert.symm
  | moved _ hmoving =>
      obtain ⟨_, _, _, _, rfl⟩ := hmoving.rest
      exact hvalid g generation hrow

end Step

namespace Service

variable {platform : Platform}

theorem Arises.generation_valid (h : Arises platform db) {generation : GenerationRow}
    (hrow : db.generations.get? g = some generation) : generation.Valid := by
  refine h.invariant (P := fun d => ∀ g row, d.generations.get? g = some row → row.Valid)
    (fun _ _ h => (by cases h)) ?_ g generation hrow
  rintro d call _ hvalid - rfl g row hrow
  exact (call.catalogStep platform d).generation_valid hvalid hrow

theorem Arises.agent_valid (h : Arises platform db) {row : AgentRow}
    (hrow : db.agents.get? a = some row) : row.Valid := by
  refine h.invariant (P := fun d => ∀ a row, d.agents.get? a = some row → row.Valid)
    (fun _ _ h => (by cases h)) ?_ a row hrow
  rintro d call _ hvalid - rfl a row hrow
  exact (call.agentStep platform d).valid hvalid hrow

theorem Arises.reporting (h : Arises platform db) : db.Reporting := by
  refine h.invariant (P := Db.Reporting) .empty ?_
  rintro d call _ hreporting - rfl
  exact hreporting.step (call.agentStep platform d) (call.preserves platform d).generation

end Service

/-! What the lists come to. -/

/-- A required list leaves a name that an enrollment allows; an empty one leaves any. -/
def Reconcilable (allowed required : List String) : Prop :=
  required = [] ∨ ∃ name ∈ required, validName name = true ∧ allowsValue allowed name = true

/-- The requirements some agent of the generation can have. -/
structure GenerationRow.Attainable (generation : GenerationRow) (required : Requirements) :
    Prop where
  runtime : ∃ kind ∈ knownRuntimes, required.runtimeKind = some kind
  operatingSystems : Reconcilable generation.operatingSystems required.operatingSystems
  architectures : Reconcilable generation.architectures required.architectures
  capabilities : ∀ name ∈ required.capabilities, validName name = true
  bounded : required.capabilities.dedup.length ≤ 1024

theorem containsAll_iff {available : List String} :
    containsAll available required = true ↔ ∀ name ∈ required, name ∈ available := by
  simp only [containsAll, List.all_eq_true, List.contains_iff_mem]

theorem dedup_length_le {names declared : List String} (h : ∀ name ∈ names, name ∈ declared) :
    names.dedup.length ≤ declared.length :=
  (List.subperm_of_subset names.nodup_dedup fun name hmem =>
    h name (List.mem_dedup.mp hmem)).length_le

theorem reconcilable_of_containsAll {allowed : List String}
    (hvalid : ∀ name ∈ allowed, validName name = true) (h : containsAll allowed required = true) :
    Reconcilable allowed required := by
  rw [containsAll_iff] at h
  cases required with
  | nil => exact Or.inl rfl
  | cons name rest =>
      have hmem := h name List.mem_cons_self
      refine Or.inr ⟨name, List.mem_cons_self, hvalid name hmem, ?_⟩
      rw [allowsValue, List.contains_iff_mem.mpr hmem, Bool.or_true]

theorem GenerationRow.Meets.attainable {generation : GenerationRow} {submission : JobSubmission}
    {codec : Codec} (h : generation.Meets submission) (hvalid : generation.Valid)
    (hdecoded : submission.Decoded codec) :
    generation.Attainable (codec.requirements submission.workloadDocument) := by
  rw [hdecoded]
  have hcapabilities := containsAll_iff.mp h.capabilities
  exact ⟨⟨_, hvalid.runtimes _ h.runtime, rfl⟩,
    reconcilable_of_containsAll hvalid.operatingSystems h.operatingSystems,
    reconcilable_of_containsAll hvalid.architectures h.architectures,
    fun name hmem => hvalid.capabilities name (hcapabilities name hmem),
    Nat.le_trans (dedup_length_le hcapabilities) hvalid.bounded⟩

theorem Db.Serves.attainable {codec : Codec} {env : Env} {job : JobRow} {generation : GenerationRow}
    {workload : WorkloadRow} {agent : AgentRow}
    (h : db.Serves codec env job generation workload a agent) (hvalid : agent.Valid)
    (hallows : generation.Allows agent) :
    generation.Attainable (codec.requirements workload.document) := by
  obtain ⟨kind, hkind, hmem⟩ := h.runtime
  refine ⟨⟨kind, hvalid.runtimes kind hmem, hkind⟩, ?_, ?_,
    fun name hname => hvalid.capabilities name (h.capabilities name hname),
    Nat.le_trans (dedup_length_le h.capabilities) hvalid.bounded⟩
  · exact h.operatingSystem.imp id fun hos =>
      ⟨_, hos, hvalid.operatingSystem, hallows.operatingSystem⟩
  · exact h.architecture.imp id fun harch =>
      ⟨_, harch, hvalid.architecture, hallows.architecture⟩

/-- The answer to a submission that requires what the generation does not offer. -/
def requirementsUnmet : StoreError :=
  .invalidPlacement "target capabilities do not satisfy the workload"

theorem resolveArtifactStores_unmet (configured : List ArtifactStore) (requested : List String) :
    resolveArtifactStores configured requested ≠ .error requirementsUnmet := by
  intro h
  simp only [resolveArtifactStores, bind_error_iff, ensure_error_iff] at h
  obtain ⟨-, h⟩ | ⟨-, -, h⟩ := h
  · revert h
    decide
  · obtain ⟨name, -, hname⟩ := mapM_error_mem _ h
    simp only [need_error_iff, requirementsUnmet, StoreError.invalidPlacement.injEq] at hname
    -- The texts differ in their first letter.
    have hfirst := congrArg (fun text : String => text.toList.head?) hname.2
    simp only [String.toList_append, List.append_assoc] at hfirst
    exact absurd hfirst (by simp)

theorem validateExecutionFeatures_unmet (backend : ExecutionBackend)
    (features : ExecutionFeatures) :
    validateExecutionFeatures backend features ≠ .error requirementsUnmet := by
  intro h
  simp only [validateExecutionFeatures, bind_error_iff, ensure_error_iff, requirementsUnmet] at h
  cases backend <;> simp [bind_error_iff, ensure_error_iff] at h

theorem resolvePartition_unmet (generationId : Id) (requested : String) :
    resolvePartition db generationId requested ≠ .error requirementsUnmet := by
  intro h
  unfold resolvePartition at h
  split at h
  · simp only [bind_error_iff, need_error_iff, pure_error_iff, and_false, exists_false, or_false,
      requirementsUnmet, StoreError.invalidPlacement.injEq] at h
    revert h
    simp
  · split at h <;> cases h

/-- An active target refuses the requirements that its current generation does not meet, and
with this answer nothing else. -/
theorem resolveTarget_unmet_iff (hcataloged : db.Cataloged) {generation : GenerationRow}
    (htarget : db.targets.get? t = some target) (hactive : target.state = .active)
    (hcurrent : target.currentGenerationId = some g)
    (hgeneration : db.generations.get? g = some generation) {submission : JobSubmission}
    (hname : submission.target = target.name) :
    resolveTarget db target.namespaceId submission = .error requirementsUnmet ↔
      ¬ generation.Meets submission := by
  have hnamed := hcataloged.targetNamed htarget
  rw [targetNamed, ← hname] at hnamed
  have hmeets : generation.Meets submission ↔
      (generation.runtimes.contains submission.runtimeKind ∧
        containsAll generation.operatingSystems submission.operatingSystems ∧
        containsAll generation.architectures submission.architectures ∧
        containsAll generation.capabilities submission.capabilities) := by
    rw [List.contains_iff_mem]
    exact ⟨fun h => ⟨h.runtime, h.operatingSystems, h.architectures, h.capabilities⟩,
      fun h => ⟨h.1, h.2.1, h.2.2.1, h.2.2.2⟩⟩
  rw [hmeets, resolveTarget, need_of_eq_some hnamed, ok_bind, need_of_eq_some hcurrent, ok_bind,
    need_of_eq_some hgeneration, ok_bind, ensure_of_true hactive, ok_bind]
  constructor
  · intro h hall
    rw [ensure_of_true hall, ok_bind] at h
    simp only [bind_error_iff, pure_error_iff, and_false, exists_false, or_false] at h
    obtain h | ⟨_, -, h | ⟨_, -, h⟩⟩ := h
    · exact resolveArtifactStores_unmet _ _ h
    · exact validateExecutionFeatures_unmet _ _ h
    · exact resolvePartition_unmet _ _ h
  · intro hnot
    rw [ensure_of_false hnot, error_bind]
    rfl

/-! An agent with given facts can be enrolled. -/

/-- Different tokens are kept under different hashes. -/
structure TokenScheme.Distinct (scheme : TokenScheme) : Prop where
  enrollment : Function.Injective fun id => scheme.hash (scheme.derive "jme" id)
  session : Function.Injective fun id => scheme.hash (scheme.derive "jms" id)

theorem exists_fresh {β γ : Type} {f : Id → β} {g : Id → γ} (hf : Function.Injective f)
    (hg : Function.Injective g) (l : List β) (m : List γ) : ∃ id, f id ∉ l ∧ g id ∉ m := by
  have hl : {id | f id ∈ l}.Finite := (List.finite_toSet l).preimage hf.injOn
  have hm : {id | g id ∈ m}.Finite := (List.finite_toSet m).preimage hg.injOn
  obtain ⟨id, hid⟩ := (hl.union hm).infinite_compl.nonempty
  exact ⟨id, fun h => hid (Or.inl h), fun h => hid (Or.inr h)⟩

section Enrollment

variable {scheme : TokenScheme} (env : Env) {generation : GenerationRow}

def tokenRequest : EnrollmentRequest := ⟨"issuer", "subject", "user", hour⟩

def tokenRow (scheme : TokenScheme) (env : Env) (namespaceId principalId targetId generationId : Id)
    (digest : String) (enrollmentId : Id) : EnrollmentTokenRow where
  namespaceId := namespaceId
  targetId := targetId
  targetGenerationId := generationId
  principalId := principalId
  createdByPrincipalId := principalId
  expectedUser := tokenRequest.expectedUser
  tokenHash := scheme.hash (scheme.derive "jme" enrollmentId)
  requestDigest := digest
  expiresAt := env.now + tokenRequest.lifetime
  used := none

theorem createEnrollmentToken_fresh (hnamed : targetNamed db target.namespaceId target.name =
      some (t, target)) (hactive : target.state = .active)
    (hcurrent : target.currentGenerationId = some g)
    (hgeneration : db.generations.get? g = some generation) {principalId : Id}
    (hkey : db.idempotency.get? ⟨target.namespaceId, principalId, .agentEnrollmentTokensCreate,
      "token"⟩ = none)
    (hfree : db.enrollmentTokens.get? e = none)
    (hhash : ∀ id row, db.enrollmentTokens.get? id = some row →
      row.tokenHash ≠ scheme.hash (scheme.derive "jme" e)) :
    ∃ token db', createEnrollmentToken scheme (fun _ => none) env
        (.ok ⟨⟨target.namespaceId, principalId, false⟩, true⟩)
        (.ok ⟨target.namespaceId, principalId, false⟩) "" target.name "token" "digest" e
        tokenRequest db = .ok (token, db') ∧
      ∀ id, db'.enrollmentTokens.get? id = if id = e then
        some (tokenRow scheme env target.namespaceId principalId t g "digest" e)
        else db.enrollmentTokens.get? id := by
  let granted : Authorization := ⟨target.namespaceId, principalId, false⟩
  have hkey : db.idempotency.get? (granted.record .agentEnrollmentTokensCreate "token") = none :=
    hkey
  obtain ⟨idempotency, hreserve, hcomplete⟩ :=
    reserve_complete_fresh env e .agentEnrollmentToken "digest" 201 (by decide) hkey
  obtain ⟨tokens, htokens⟩ := Table.insert?_isSome db.enrollmentTokens e
    (tokenRow scheme env target.namespaceId principalId t g "digest" e) hfree
  have hunused : (!db.enrollmentTokens.any fun _ existing =>
      existing.tokenHash = scheme.hash (scheme.derive "jme" e)) = true := by
    rw [Bool.not_eq_true', Table.any_eq_false_iff]
    intro id row hrow
    exact decide_eq_false (hhash id row hrow)
  obtain ⟨idempotency', hcompleted⟩ := hcomplete
    { db with idempotency := idempotency, enrollmentTokens := tokens } rfl
  have hrequest : validateEnrollmentRequest tokenRequest = .ok () := rfl
  refine ⟨⟨e, "", target.name, g, "issuer", "subject", "user", scheme.derive "jme" e,
      env.now + hour, false⟩,
    { db with
      idempotency := idempotency', enrollmentTokens := tokens
      audit := db.audit ++ [⟨target.namespaceId, .principal principalId,
        .agentEnrollmentTokenCreated, .agentEnrollmentToken, e, some "digest", some "token"⟩] },
    ?_, Table.get?_insert htokens⟩
  rw [createEnrollmentToken, ensure_of_true (by decide), ok_bind, hrequest, ok_bind, ok_bind]
  dsimp only [Except.mapError]
  rw [ok_bind, ensure_of_true (Or.inl rfl), ok_bind, hreserve, ok_bind]
  dsimp only
  rw [show targetNamed { db with idempotency := idempotency } target.namespaceId target.name =
    some (t, target) from hnamed, need_of_eq_some rfl, ok_bind, need_of_eq_some hcurrent, ok_bind,
    need_of_eq_some hgeneration, ok_bind, ensure_of_true hactive, ok_bind, ensure_of_true hunused,
    ok_bind]
  unfold tokenRow at htokens
  rw [need_of_eq_some htokens, ok_bind, hcompleted, ok_bind]
  rfl

/-- The checks an enrollment makes of a registration that uses such a token. -/
structure GenerationRow.Enrolls (generation : GenerationRow) (g : Id)
    (registration : AgentRegistration) : Prop where
  valid : validateAgentRegistration registration = .ok ()
  generationId : registration.targetGenerationId = g
  user : registration.executionUser = tokenRequest.expectedUser
  backend : generation.executionBackend ∈ registration.executionBackends
  operatingSystem : allowsValue generation.operatingSystems registration.operatingSystem = true
  architecture : allowsValue generation.architectures registration.architecture = true

theorem enrollAgent_fresh (htarget : db.targets.get? t = some target)
    (hactive : target.state = .active) (hcurrent : target.currentGenerationId = some g)
    (hgeneration : db.generations.get? g = some generation) {principalId : Id}
    (htoken : db.enrollmentTokens.get? e =
      some (tokenRow scheme env target.namespaceId principalId t g "digest" e))
    (hunique : ∀ id row, db.enrollmentTokens.get? id = some row →
      row.tokenHash = scheme.hash (scheme.derive "jme" e) → id = e)
    {registration : AgentRegistration} (henrolls : generation.Enrolls g registration) {s : Id}
    (hagent : db.agents.get? a = none) (hsession : db.sessions.get? s = none)
    (hhash : ∀ id row, db.sessions.get? id = some row →
      row.tokenHash ≠ scheme.hash (scheme.derive "jms" s)) :
    ∃ session db', enrollAgent scheme env (scheme.derive "jme" e) registration hour a s db =
        .ok (session, db') ∧
      db'.agents.get? a = some (newAgentRow env ⟨e, tokenRow scheme env target.namespaceId
        principalId t g "digest" e, target, generation⟩ registration) ∧
      db'.sessions.get? s = some ⟨a, env.now + hour, none, target.namespaceId,
        scheme.hash (scheme.derive "jms" s), none, none, env.now⟩ := by
  let row := tokenRow scheme env target.namespaceId principalId t g "digest" e
  have hselect : (db.enrollmentTokens.select fun _ row =>
      row.tokenHash = scheme.hash (scheme.derive "jme" e)) = [(e, row)] := by
    refine Table.select_eq_singleton _ _ htoken (decide_eq_true rfl) ?_
    exact fun id row hrow hhash => hunique id row hrow (decide_eq_true_iff.mp hhash)
  have hlookup : lookupEnrollment db (scheme.hash (scheme.derive "jme" e)) =
      some ⟨e, row, target, generation⟩ := by
    have hguard : target.currentGenerationId = some row.targetGenerationId := hcurrent
    rw [lookupEnrollment, hselect]
    simp [show db.targets.get? row.targetId = some target from htarget,
      show db.generations.get? row.targetGenerationId = some generation from hgeneration, hguard]
  obtain ⟨agents, hagents⟩ := Table.insert?_isSome db.agents a
    (newAgentRow env ⟨e, row, target, generation⟩ registration) hagent
  obtain ⟨sessions, hsessions⟩ := Table.insert?_isSome db.sessions s
    ⟨a, env.now + hour, none, target.namespaceId, scheme.hash (scheme.derive "jms" s), none, none,
      env.now⟩ hsession
  have hunused : (!db.sessions.any fun _ session =>
      session.tokenHash = scheme.hash (scheme.derive "jms" s)) = true := by
    rw [Bool.not_eq_true', Table.any_eq_false_iff]
    intro id row hrow
    exact decide_eq_false (hhash id row hrow)
  have hinsert : insertSession env { db with agents := agents } s row.namespaceId a
      (scheme.hash (scheme.derive "jms" s)) hour =
      .ok { db with agents := agents, sessions := sessions } := by
    rw [insertSession, ensure_of_true hunused, ok_bind]
    exact bind_ok_iff _ _ _ |>.mpr ⟨sessions, need_of_eq_some hsessions _, rfl⟩
  refine ⟨⟨a, s, scheme.derive "jms" s, env.now + hour, false⟩,
    { db with
      agents := agents, sessions := sessions
      enrollmentTokens := db.enrollmentTokens.modify e fun row =>
        { row with used := some ⟨env.now, a⟩ }
      audit := db.audit ++ [⟨target.namespaceId, .principal principalId, .agentEnrolled, .agent, a,
        some registration.requestDigest, none⟩] }, ?_, ?_, ?_⟩
  · rw [enrollAgent, enrollAgentWith, henrolls.valid, ok_bind, ensure_of_true (by decide), ok_bind,
      hlookup, need_of_eq_some rfl, ok_bind]
    have hfresh : row.used = none := rfl
    have hexpires : env.now < row.expiresAt := Nat.lt_add_of_pos_right (by decide)
    simp only [hfresh]
    rw [ensure_of_true ⟨hexpires, hactive, henrolls.generationId.symm⟩, ok_bind, ensure_of_true
      ⟨henrolls.user.symm, List.contains_iff_mem.mpr henrolls.backend, henrolls.operatingSystem,
        henrolls.architecture⟩, ok_bind, need_of_eq_some hagents, ok_bind, hinsert, ok_bind]
    rfl
  · dsimp only
    rw [Table.get?_insert hagents, if_pos rfl]
  · dsimp only
    rw [Table.get?_insert hsessions, if_pos rfl]

theorem Reconcilable.exists_name {allowed : List String} (h : Reconcilable allowed required)
    (hvalid : ∀ name ∈ allowed, validName name = true) :
    ∃ name, validName name = true ∧ allowsValue allowed name = true ∧
      (required = [] ∨ name ∈ required) := by
  obtain hempty | ⟨name, hmem, hname, hallows⟩ := h
  · cases allowed with
    | nil => exact ⟨"linux", by decide, rfl, Or.inl hempty⟩
    | cons name rest =>
        refine ⟨name, hvalid name List.mem_cons_self, ?_, Or.inl hempty⟩
        rw [allowsValue, List.contains_iff_mem.mpr List.mem_cons_self, Bool.or_true]
  · exact ⟨name, hname, hallows, Or.inr hmem⟩

theorem GenerationRow.Attainable.exists_registration {required : Requirements}
    (h : generation.Attainable required) (hvalid : generation.Valid) (g : Id) :
    ∃ registration : AgentRegistration, generation.Enrolls g registration ∧
      (∃ kind, required.runtimeKind = some kind ∧ kind ∈ registration.runtimes) ∧
      (required.operatingSystems = [] ∨
        registration.operatingSystem ∈ required.operatingSystems) ∧
      (required.architectures = [] ∨ registration.architecture ∈ required.architectures) ∧
      ∀ name ∈ required.capabilities, name ∈ registration.capabilities := by
  obtain ⟨kind, hknown, hkind⟩ := h.runtime
  obtain ⟨os, hos, hosAllowed, hosRequired⟩ :=
    h.operatingSystems.exists_name hvalid.operatingSystems
  obtain ⟨arch, harch, harchAllowed, harchRequired⟩ :=
    h.architectures.exists_name hvalid.architectures
  obtain ⟨declared, hdeclared, hmem⟩ := exists_sortedSet "capability" h.capabilities h.bounded
  have hbackend : validateSortedSet "execution backend"
      ([generation.executionBackend].map ExecutionBackend.text) (some ["subprocess", "slurm"])
      true = .ok () := by
    cases generation.executionBackend <;> rfl
  have hruntime : validateSortedSet "runtime" [kind] (some ["native", "container"]) true =
      .ok () := by
    simp only [knownRuntimes, List.mem_cons, List.not_mem_nil, or_false] at hknown
    obtain rfl | rfl := hknown <;> rfl
  let facts : AgentFacts :=
    ⟨"1", os, arch, "node", tokenRequest.expectedUser, [generation.executionBackend], [kind],
      declared⟩
  have htexts : "1" ≠ "" ∧ "node" ≠ "" ∧ tokenRequest.expectedUser ≠ "" := by decide
  have hsizes : "1".utf8ByteSize ≤ 128 ∧ "node".utf8ByteSize ≤ 255 ∧
      tokenRequest.expectedUser.utf8ByteSize ≤ 512 := by decide
  have hfacts : validateAgentFacts facts = .ok () := by
    rw [validateAgentFacts, ensure_of_true ⟨htexts.1, htexts.2.1, htexts.2.2, hos, harch⟩, ok_bind,
      ensure_of_true hsizes, ok_bind, hbackend, ok_bind, hruntime, ok_bind]
    exact hdeclared
  have hversions : ["jobman/v1alpha1"] ≠ [] ∧ ["jobman/v1alpha1"].length ≤ 32 ∧
      isSorted ["jobman/v1alpha1"] := by decide
  have hdigest : validDigest ("sha256:" ++ String.ofList (List.replicate 64 '0')) := by
    decide
  refine ⟨⟨facts, g, ["jobman/v1alpha1"], "sha256:" ++ String.ofList (List.replicate 64 '0')⟩,
    ⟨?_, rfl, rfl, List.mem_singleton.mpr rfl, hosAllowed, harchAllowed⟩,
    ⟨kind, hkind, List.mem_singleton.mpr rfl⟩, hosRequired, harchRequired, hmem⟩
  rw [validateAgentRegistration, ensure_of_true hversions, ok_bind,
    show validateProtocolVersions none ["jobman/v1alpha1"] = .ok () from rfl, ok_bind,
    ensure_of_true (List.mem_singleton.mpr rfl), ok_bind, ensure_of_true hdigest, ok_bind]
  exact hfacts

end Enrollment

namespace Service

variable {platform : Platform} {generation : GenerationRow}

/-- Some day an agent of the generation can serve a job with the given workload. -/
def Servable (platform : Platform) (db : Db) (g : Id) (generation : GenerationRow)
    (document : String) : Prop :=
  ∃ db' env job workload a agent, Later platform db db' ∧ job.targetGenerationId = g ∧
    workload.document = document ∧ db'.agents.get? a = some agent ∧
    db'.Serves platform.codec env job generation workload a agent

theorem Servable.attainable (harises : Arises platform db)
    (hgeneration : db.generations.get? g = some generation) {document : String}
    (h : Servable platform db g generation document) :
    generation.Attainable (platform.codec.requirements document) := by
  obtain ⟨db', env, job, workload, a, agent, hlater, hjob, rfl, hagent, hserves⟩ := h
  have harises' : Arises platform db' := harises.trans hlater
  obtain ⟨allowing, hallowing, hallows⟩ := harises'.reporting.allowed a agent hagent
  rw [hserves.targetGenerationId, hjob] at hallowing
  cases (hlater.preserves.generation g generation hgeneration).symm.trans hallowing
  exact hserves.attainable (harises'.agent_valid hagent) hallows

theorem servable_of_attainable (hdistinct : platform.tokens.Distinct) (harises : Arises platform db)
    (htarget : db.targets.get? t = some target) (hactive : target.state = .active)
    (hcurrent : target.currentGenerationId = some g)
    (hgeneration : db.generations.get? g = some generation) (submission : JobSubmission)
    (h : generation.Attainable (platform.codec.requirements submission.workloadDocument)) :
    Servable platform db g generation submission.workloadDocument := by
  let env : Env := ⟨0, id, fun _ => 0, id⟩
  obtain ⟨registration, henrolls, hruntime, hos, harch, hcapabilities⟩ :=
    h.exists_registration (harises.generation_valid hgeneration) g
  -- Identities that nothing in the store uses.
  obtain ⟨principalId, hprincipal, -⟩ := exists_fresh
    (f := fun p =>
      (⟨target.namespaceId, p, .agentEnrollmentTokensCreate, "token"⟩ : IdempotencyKey))
    (fun _ _ h => (IdempotencyKey.mk.inj h).2.1) Function.injective_id
    (db.idempotency.entries.map Prod.fst) []
  obtain ⟨e, (he : e ∉ _), hehash⟩ := exists_fresh Function.injective_id hdistinct.enrollment
    (db.enrollmentTokens.entries.map Prod.fst)
    (db.enrollmentTokens.entries.map fun entry => entry.2.tokenHash)
  obtain ⟨s, (hs : s ∉ _), hshash⟩ := exists_fresh Function.injective_id hdistinct.session
    (db.sessions.entries.map Prod.fst) (db.sessions.entries.map fun entry => entry.2.tokenHash)
  obtain ⟨a, (ha : a ∉ _), -⟩ := exists_fresh Function.injective_id Function.injective_id
    (db.agents.entries.map Prod.fst) []
  have hunhashed : ∀ id row, db.enrollmentTokens.get? id = some row →
      row.tokenHash ≠ platform.tokens.hash (platform.tokens.derive "jme" e) :=
    fun id row hrow heq => hehash (List.mem_map.mpr
      ⟨(id, row), (Table.get?_eq_some_iff _ _ _).mp hrow, heq⟩)
  have hunhashed' : ∀ id row, db.sessions.get? id = some row →
      row.tokenHash ≠ platform.tokens.hash (platform.tokens.derive "jms" s) :=
    fun id row hrow heq => hshash (List.mem_map.mpr
      ⟨(id, row), (Table.get?_eq_some_iff _ _ _).mp hrow, heq⟩)
  obtain ⟨token, db₁, hcreated, htokens⟩ := createEnrollmentToken_fresh env
    (harises.cataloged.targetNamed htarget) hactive hcurrent hgeneration
    ((Table.get?_eq_none_iff _ _).mpr hprincipal) ((Table.get?_eq_none_iff _ _).mpr he) hunhashed
  have hlater₁ : Later platform db db₁ := .tail ⟨env, .createEnrollmentToken _ _ _ _ _ _ _ _ _⟩
    .refl trivial (atomically_of_ok hcreated)
  have hunique : ∀ id row, db₁.enrollmentTokens.get? id = some row →
      row.tokenHash = platform.tokens.hash (platform.tokens.derive "jme" e) → id = e := by
    intro id row hrow hhash
    rw [htokens] at hrow
    split at hrow
    · assumption
    · exact absurd hhash (hunhashed id row hrow)
  have htoken := (htokens e).trans (if_pos rfl)
  obtain ⟨_, _, _, hdb₁, -⟩ := createEnrollmentToken_writes hcreated
  have htargets : db₁.targets = db.targets := by rw [hdb₁]
  have hgenerations : db₁.generations = db.generations := by rw [hdb₁]
  have hagents : db₁.agents = db.agents := by rw [hdb₁]
  have hsessions : db₁.sessions = db.sessions := by rw [hdb₁]
  obtain ⟨session, db₂, henrolled, hagent, hsession⟩ := enrollAgent_fresh env (htargets ▸ htarget)
    hactive hcurrent (hgenerations ▸ hgeneration) htoken hunique henrolls
    (hagents ▸ (Table.get?_eq_none_iff _ _).mpr ha)
    (hsessions ▸ (Table.get?_eq_none_iff _ _).mpr hs) (hsessions ▸ hunhashed')
  have hlater₂ : Later platform db db₂ := hlater₁.tail ⟨env, .enrollAgent _ _ _ _ _⟩ trivial
    (atomically_of_ok henrolled)
  refine ⟨db₂, env, newJobRow env ⟨target.namespaceId, principalId, false⟩ submission
    ⟨t, g, "", generation.executionBackend, []⟩, ⟨submission.workloadDocument, principalId⟩, a, _,
    hlater₂, rfl, rfl, hagent, rfl, rfl, rfl, rfl, rfl, rfl, ⟨_, rfl, by decide⟩, henrolls.backend,
    hruntime, hos, harch, hcapabilities,
    ⟨s, _, hsession, rfl, rfl, Nat.lt_add_of_pos_right (by decide)⟩, fun _ _ h => by cases h⟩

/-- What the target of a submission refuses cannot be served, and what it accepts can be: this
holds exactly when the target meets whatever is attainable. -/
theorem requirement_readings_agree_iff (hdistinct : platform.tokens.Distinct)
    (harises : Arises platform db) (htarget : db.targets.get? t = some target)
    (hactive : target.state = .active) (hcurrent : target.currentGenerationId = some g)
    (hgeneration : db.generations.get? g = some generation) {submission : JobSubmission}
    (hname : submission.target = target.name) (hdecoded : submission.Decoded platform.codec) :
    ((resolveTarget db target.namespaceId submission = .error requirementsUnmet →
        ¬ Servable platform db g generation submission.workloadDocument) ∧
      (resolveTarget db target.namespaceId submission ≠ .error requirementsUnmet →
        Servable platform db g generation submission.workloadDocument)) ↔
    (generation.Attainable (platform.codec.requirements submission.workloadDocument) →
      generation.Meets submission) := by
  have hservable : Servable platform db g generation submission.workloadDocument ↔
      generation.Attainable (platform.codec.requirements submission.workloadDocument) :=
    ⟨fun h => h.attainable harises hgeneration,
      servable_of_attainable hdistinct harises htarget hactive hcurrent hgeneration submission⟩
  have hattainable : generation.Meets submission →
      generation.Attainable (platform.codec.requirements submission.workloadDocument) :=
    fun h => h.attainable (harises.generation_valid hgeneration) hdecoded
  rw [ne_eq, resolveTarget_unmet_iff harises.cataloged htarget hactive hcurrent hgeneration hname,
    hservable]
  tauto

end Service

namespace Sample

def plainTokens : TokenScheme where
  derive label id := label ++ String.ofList (List.replicate id '0')
  hash token := token

theorem plainTokens_distinct : plainTokens.Distinct := by
  have hlength : ∀ (label : String) (i j : Id),
      plainTokens.derive label i = plainTokens.derive label j → i = j := by
    intro label i j h
    simpa [plainTokens] using congrArg (fun text : String => text.toList.length) h
  exact ⟨fun i j => hlength "jme" i j, fun i j => hlength "jms" i j⟩

def plainPlatform : Platform := ⟨codec, plainTokens, toString⟩

def hostSystem (system : Option String) : TargetSpec :=
  { hostSpec "cluster" with operatingSystems := system.toList }

/-- A namespace and a target for at most one operating system. -/
def cataloging (system : Option String) : List ServiceCall :=
  [⟨env 0, .ensureBootstrapNamespace 1 "research" policy⟩,
    ⟨env 1, .createTarget authorization "create-target" "request" (targetDraw 1)
      (hostSystem system)⟩]

def cataloged (system : Option String) : Db :=
  Service.run plainPlatform Db.empty (cataloging system)

theorem cataloged_arises (system : Option String) :
    Service.Arises plainPlatform (cataloged system) :=
  Service.later_run _ Db.empty (cataloging system)

def hostTarget : TargetRow := ⟨1, "cluster", .active, some 11, .host, 1, 1, 1⟩

def hostGeneration (system : Option String) : GenerationRow :=
  newGenerationRow 1 10 1 (hostSystem system)

theorem cataloged_rows : ∀ system ∈ [none, some "linux"],
    (cataloged system).targets.get? 10 = some hostTarget ∧
      (cataloged system).generations.get? 11 = some (hostGeneration system) := by
  decide

def onSystem (system : Option String) : JobSubmission :=
  { nativeSubmission "sole" with
    operatingSystems := system.toList, workloadDocument := workload "native" system }

theorem onSystem_decoded : ∀ system ∈ [none, some "linux", some "darwin"],
    (onSystem system).Decoded codec := by
  have h : ∀ system ∈ [none, some "linux", some "darwin"],
      codec.requirements (workload "native" system) = ⟨some "native", system.toList, [], []⟩ := by
    decide
  exact h

def enrolling : List ServiceCall :=
  [⟨env 2, .createEnrollmentToken (fun _ => some ("issuer", "subject"))
      (.ok ⟨⟨1, 2, false⟩, true⟩) authorization "research" "cluster" "create-token" "request" 5
      ⟨"issuer", "subject", "user", hour⟩⟩,
    ⟨env 3, .enrollAgent (plainTokens.derive "jme" 5) registration hour 5 6⟩]

end Sample

/-- Submissions that name the system of the target, or none as the target does, are accepted
and can be served; one that names another is refused and cannot be. -/
theorem requirement_readings_agree_systems :
    (∀ system ∈ [none, some "linux"],
      resolveTarget (Sample.cataloged system) 1 (Sample.onSystem system) ≠
        .error requirementsUnmet ∧
      Service.Servable Sample.plainPlatform (Sample.cataloged system) 11
        (Sample.hostGeneration system) (Sample.workload "native" system)) ∧
    resolveTarget (Sample.cataloged (some "linux")) 1 (Sample.onSystem (some "darwin")) =
      .error requirementsUnmet ∧
    ¬ Service.Servable Sample.plainPlatform (Sample.cataloged (some "linux")) 11
      (Sample.hostGeneration (some "linux")) (Sample.workload "native" (some "darwin")) := by
  refine ⟨fun system hsystem => ?_, ?_⟩
  · obtain ⟨htarget, hgeneration⟩ := Sample.cataloged_rows system hsystem
    have hmeets : (Sample.hostGeneration system).Meets (Sample.onSystem system) := by
      refine ⟨List.mem_singleton.mpr rfl, ?_, rfl, rfl⟩
      exact List.all_eq_true.mpr fun _ hmem => List.contains_iff_mem.mpr hmem
    have hagree := (Service.requirement_readings_agree_iff Sample.plainTokens_distinct
      (Sample.cataloged_arises system) htarget rfl rfl hgeneration rfl
      (Sample.onSystem_decoded system (by grind))).mpr fun _ => hmeets
    have haccepted : resolveTarget (Sample.cataloged system) 1 (Sample.onSystem system) ≠
        .error requirementsUnmet := fun h =>
      (resolveTarget_unmet_iff (Sample.cataloged_arises system).cataloged htarget rfl rfl
        hgeneration rfl).mp h hmeets
    exact ⟨haccepted, hagree.2 haccepted⟩
  · obtain ⟨htarget, hgeneration⟩ := Sample.cataloged_rows (some "linux") (by decide)
    have hdecoded := Sample.onSystem_decoded (some "darwin") (by decide)
    have hunmet : ¬(Sample.hostGeneration (some "linux")).Meets (Sample.onSystem (some "darwin")) :=
      fun h => absurd h.operatingSystems (by decide)
    have hunattainable : ¬ (Sample.hostGeneration (some "linux")).Attainable
        (Sample.codec.requirements (Sample.onSystem (some "darwin")).workloadDocument) := by
      rw [hdecoded]
      exact fun h => absurd h.operatingSystems (by unfold Reconcilable; decide)
    have hagree := (Service.requirement_readings_agree_iff Sample.plainTokens_distinct
      (Sample.cataloged_arises (some "linux")) htarget rfl rfl hgeneration rfl hdecoded).mpr
      fun h => absurd h hunattainable
    have hrefused := (resolveTarget_unmet_iff (Sample.cataloged_arises (some "linux")).cataloged
      htarget rfl rfl hgeneration rfl).mpr hunmet
    exact ⟨hrefused, hagree.1 hrefused⟩

/-- A target that names no operating system refuses a submission that names linux, and an
agent that runs linux is admitted to it and is found for the job. -/
theorem linux_refused_and_servable :
    resolveTarget (Sample.cataloged none) 1 (Sample.onSystem (some "linux")) =
        .error requirementsUnmet ∧
      Service.Servable Sample.plainPlatform (Sample.cataloged none) 11 (Sample.hostGeneration none)
        (Sample.workload "native" (some "linux")) := by
  obtain ⟨htarget, hgeneration⟩ := Sample.cataloged_rows none (by decide)
  have hrefused : ¬ (Sample.hostGeneration none).Meets (Sample.onSystem (some "linux")) :=
    fun h => absurd h.operatingSystems (by decide)
  have hfound : (Service.run Sample.plainPlatform (Sample.cataloged none)
      Sample.enrolling).candidateAgent Sample.codec (Sample.env 4)
      (newJobRow (Sample.env 4) ⟨1, 2, false⟩ (Sample.onSystem (some "linux"))
        ⟨10, 11, "", .subprocess, []⟩) (Sample.hostGeneration none)
      ⟨Sample.workload "native" (some "linux"), 2⟩ = some 5 := by
    decide
  obtain ⟨agent, hagent, hserves⟩ := candidateAgent_serves hfound
  exact ⟨(resolveTarget_unmet_iff (Sample.cataloged_arises none).cataloged htarget rfl rfl
      hgeneration rfl).mpr hrefused,
    _, _, _, _, _, agent, Service.later_run _ _ _, rfl, rfl, hagent, hserves⟩

end JobmanControl
