import JobmanControl.Store.Idempotency

/-!
The catalog of targets. A target is created with its first generation, replaced by a new
generation when its specification changes, and moved between its states; a job or an
agent keeps the generation it was bound to. The checks of a specification are those made
before any statement, the constraints those of the tables.
-/

namespace JobmanControl

open Relational

structure PartitionSpec where
  name : String
  isDefault : Bool
  deriving DecidableEq, Repr

/-- The `kind` of a provider; a specification may leave it out. -/
inductive ProviderKind
  | unset | onPrem | awsParallelCluster
  deriving DecidableEq, Repr

structure ProviderSpec where
  kind : ProviderKind
  region : String
  clusterName : String
  deriving DecidableEq, Repr

structure TargetSpec where
  name : String
  kind : TargetKind
  executionBackend : ExecutionBackend
  provider : ProviderSpec
  runtimes : List String
  operatingSystems : List String
  architectures : List String
  capabilities : List String
  logStoreName : String
  logStoreVersion : Int
  artifactStores : List ArtifactStore
  partitions : List PartitionSpec
  deriving DecidableEq, Repr

structure TargetGenerationChange where
  expectedRevision : Int
  spec : TargetSpec
  deriving DecidableEq, Repr

structure TargetStateChange where
  expectedRevision : Int
  state : TargetState
  deriving DecidableEq, Repr

def lowerCase (c : Char) : Bool := 'a' ≤ c && c ≤ 'z'

def upperCase (c : Char) : Bool := 'A' ≤ c && c ≤ 'Z'

def decimalDigit (c : Char) : Bool := '0' ≤ c && c ≤ '9'

/-- `^[a-z]([a-z0-9._-]{0,62}[a-z0-9])?$`. -/
def validStoreName (value : String) : Bool :=
  let edge (c : Char) : Bool := lowerCase c || decimalDigit c
  let inner (c : Char) : Bool := edge c || c = '.' || c = '_' || c = '-'
  match value.toList with
  | [] => false
  | first :: rest =>
      lowerCase first && rest.length ≤ 63 && rest.dropLast.all inner &&
        (rest.getLast?.map edge).getD true

/-- `^[a-z]{2}(?:-gov)?-[a-z0-9-]+-\d+$`. The optional part adds nothing, because what
follows it may itself begin with `gov-`. -/
def validAwsRegion (value : String) : Bool :=
  match value.toList with
  | a :: b :: '-' :: rest =>
      lowerCase a && lowerCase b &&
        (rest.all fun c => lowerCase c || decimalDigit c || c = '-') &&
        rest.reverse.takeWhile decimalDigit ≠ [] &&
        match rest.reverse.dropWhile decimalDigit with
        | '-' :: _ :: _ => true
        | _ => false
  | _ => false

/-- `^[A-Za-z][A-Za-z0-9-]{0,59}$`. -/
def validClusterName (value : String) : Bool :=
  match value.toList with
  | [] => false
  | first :: rest =>
      (lowerCase first || upperCase first) && rest.length ≤ 59 &&
        rest.all fun c => lowerCase c || upperCase c || decimalDigit c || c = '-'

def isSorted (values : List String) : Bool :=
  (values.zip values.tail).all fun pair => !decide (pair.2 < pair.1)

def validateSortedValues (field : String) (allowed : Option (List String)) :
    Option String → List String → Except StoreError Unit
  | _, [] => .ok ()
  | previous, value :: rest => do
      ensure (validName value) (.invalid (field ++ " " ++ value.quote ++ " is invalid"))
      ensure (previous ≠ some value) (.invalid (field ++ " " ++ value.quote ++ " is duplicated"))
      ensure (∀ values ∈ allowed, value ∈ values)
        (.invalid (field ++ " " ++ value.quote ++ " is unsupported"))
      validateSortedValues field allowed (some value) rest

def validateSortedSet (field : String) (values : List String) (allowed : Option (List String))
    (required : Bool) : Except StoreError Unit := do
  ensure (required = true → values ≠ [])
    (.invalid ("at least one " ++ field ++ " is required"))
  ensure (values.length ≤ 1024 ∧ isSorted values)
    (.invalid (field ++ "s must be bounded and sorted"))
  validateSortedValues field allowed none values

/-- `NormalizeTargetProvider`. -/
def ProviderSpec.normalize (provider : ProviderSpec) : ProviderSpec :=
  { provider with kind := if provider.kind = .unset then .onPrem else provider.kind }

def validateTargetProvider (spec : TargetSpec) : Except StoreError Unit :=
  match spec.provider.normalize.kind with
  | .unset | .onPrem =>
      ensure (spec.provider.region = "" ∧ spec.provider.clusterName = "")
        (.invalid "on-prem target provider cannot contain AWS settings")
  | .awsParallelCluster =>
      ensure (spec.kind = .slurm ∧ spec.executionBackend = .slurm ∧
          validAwsRegion spec.provider.region ∧ validClusterName spec.provider.clusterName)
        (.invalid "AWS ParallelCluster provider settings are invalid")

def validateArtifactStores : Option String → List ArtifactStore → Except StoreError Unit
  | _, [] => .ok ()
  | previous, store :: rest => do
      ensure (validStoreName store.name ∧ 1 ≤ store.version ∧ previous ≠ some store.name)
        (.invalid "artifact store mapping is invalid or duplicated")
      validateArtifactStores (some store.name) rest

def validatePartitions : List String → List PartitionSpec → Except StoreError Unit
  | _, [] => .ok ()
  | seen, partition :: rest => do
      ensure (validName partition.name)
        (.invalid ("partition name " ++ partition.name.quote ++ " is invalid"))
      ensure (partition.name ∉ seen)
        (.invalid ("partition " ++ partition.name.quote ++ " is duplicated"))
      validatePartitions (partition.name :: seen) rest

/-- `ValidateTargetSpec`. That the kind and the backend are known ones is in their types. -/
def validateTargetSpec (spec : TargetSpec) : Except StoreError Unit := do
  ensure (validName spec.name) (.invalid "target name is invalid")
  ensure (spec.kind = .host ↔ spec.executionBackend = .subprocess)
    (.invalid "target kind and execution backend are incompatible")
  validateTargetProvider spec
  validateSortedSet "runtime" spec.runtimes (some ["native", "container"]) true
  validateSortedSet "operating system" spec.operatingSystems none false
  validateSortedSet "architecture" spec.architectures none false
  validateSortedSet "capability" spec.capabilities none false
  ensure (spec.logStoreName = "" ↔ spec.logStoreVersion = 0)
    (.invalid "log store name and version must be configured together")
  ensure (spec.logStoreName ≠ "" → validStoreName spec.logStoreName ∧ 1 ≤ spec.logStoreVersion)
    (.invalid "log store mapping is invalid")
  ensure (spec.artifactStores.length ≤ 64 ∧ isSorted (spec.artifactStores.map (·.name)))
    (.invalid "artifact store mappings must be bounded and sorted")
  validateArtifactStores none spec.artifactStores
  ensure (spec.kind = .host → spec.partitions = [])
    (.invalid "host targets cannot contain partitions")
  validatePartitions [] spec.partitions
  ensure ((spec.partitions.filter (·.isDefault)).length ≤ 1)
    (.invalid "target has more than one default partition")

def validateTargetGenerationChange (change : TargetGenerationChange) : Except StoreError Unit := do
  ensure (1 ≤ change.expectedRevision) (.invalid "target generation revision must be positive")
  validateTargetSpec change.spec

/-- `ValidateTargetStateChange`. That the state is a known one is in its type. -/
def validateTargetStateChange (change : TargetStateChange) : Except StoreError Unit :=
  ensure (1 ≤ change.expectedRevision) (.invalid "target state change revision must be positive")

structure Target where
  id : Id
  row : TargetRow
  generationId : Id
  generation : GenerationRow
  namespaceName : String
  partitions : List PartitionSpec
  deriving DecidableEq, Repr

/-- The values a call on a target draws: new identities, and the clock reading of the
trigger that stamps a new target. -/
structure TargetDraw where
  targetId : Id
  generationId : Id
  outboxId : Id
  partitionId : Nat → Id
  clock : Time

def loadPartitions (db : Db) (generationId : Id) : List PartitionSpec :=
  orderBy (fun a b => !decide (b.name < a.name))
    ((db.partitions.select fun _ partition =>
      partition.targetGenerationId = generationId && partition.state ≠ .retired).map fun entry =>
        ⟨entry.2.name, entry.2.isDefault⟩)

def getTargetById (db : Db) (namespaceId targetId : Id) : Except StoreError Target := do
  let row ← need (db.targets.get? targetId) (.invalid "no rows in result set")
  ensure (row.namespaceId = namespaceId) (.invalid "no rows in result set")
  let namespaceName ← need (db.namespaces.get? row.namespaceId) (.invalid "no rows in result set")
  let generationId ← need row.currentGenerationId (.invalid "no rows in result set")
  let generation ← need (db.generations.get? generationId) (.invalid "no rows in result set")
  pure ⟨targetId, row, generationId, generation, namespaceName, loadPartitions db generationId⟩

variable {namespaceId targetId generationId : Id} {l : List (Id × PartitionSpec)} {generation : Nat}
  {result : Target} {replayed : Bool}

theorem getTargetById_of {g : Id} {row : TargetRow} {generation : GenerationRow}
    {namespaceName : String} (hrow : db.targets.get? targetId = some row)
    (howner : row.namespaceId = namespaceId)
    (hnamespace : db.namespaces.get? row.namespaceId = some namespaceName)
    (hselected : row.currentGenerationId = some g)
    (hstored : db.generations.get? g = some generation) :
    getTargetById db namespaceId targetId =
      .ok ⟨targetId, row, g, generation, namespaceName, loadPartitions db g⟩ := by
  rw [getTargetById, need_of_eq_some hrow, ok_bind, ensure_of_true (by simp [howner]), ok_bind,
    need_of_eq_some hnamespace, ok_bind, need_of_eq_some hselected, ok_bind,
    need_of_eq_some hstored, ok_bind]
  rfl

theorem getTargetById_id {db : Db} {target : Target}
    (h : getTargetById db namespaceId targetId = .ok target) : target.id = targetId := by
  simp only [getTargetById, bind_ok_iff, pure_ok_iff] at h
  obtain ⟨_, -, -, -, _, -, _, -, _, -, rfl⟩ := h
  rfl

def TargetSpec.targetProvider (spec : TargetSpec) : TargetProvider :=
  match spec.provider.normalize.kind with
  | .unset | .onPrem => .onPrem
  | .awsParallelCluster => .awsParallelCluster spec.provider.region spec.provider.clusterName

def newGenerationRow (namespaceId targetId : Id) (generation : Nat) (spec : TargetSpec) :
    GenerationRow :=
  { namespaceId := namespaceId
    targetId := targetId
    executionBackend := spec.executionBackend
    runtimes := spec.runtimes
    operatingSystems := spec.operatingSystems
    architectures := spec.architectures
    capabilities := spec.capabilities
    artifactStores := spec.artifactStores
    logStoreName := if spec.logStoreName = "" then none else some spec.logStoreName
    generation := generation
    logStoreVersion := if spec.logStoreVersion = 0 then none else some spec.logStoreVersion
    provider := spec.targetProvider }

/-- The check constraints of `target_generations` that a row's type leaves open. -/
def checkGenerationRow (row : GenerationRow) : Except StoreError Unit := do
  ensure (0 < row.generation) (.constraint "target_generations_generation_positive")
  ensure (row.runtimes ≠ [] ∧ ∀ runtime ∈ row.runtimes, runtime ∈ ["native", "container"])
    (.constraint "target_generations_runtimes_known")
  ensure ((row.logStoreName = none ∧ row.logStoreVersion = none) ∨
      (row.logStoreName.any validStoreName ∧ row.logStoreVersion.any (0 < ·)))
    (.constraint "target_generations_log_store_consistent")

def insertPartition (generationId : Id) (db : Db) (entry : Id × PartitionSpec) :
    Except StoreError Db := do
  ensure (validName entry.2.name) (.constraint "partitions_name_format")
  ensure (!db.partitions.any fun _ partition =>
      partition.targetGenerationId = generationId && partition.name = entry.2.name)
    (.constraint "partitions_generation_name_unique")
  ensure (entry.2.isDefault = true → (!db.partitions.any fun _ partition =>
      partition.targetGenerationId = generationId && partition.isDefault) = true)
    (.constraint "partitions_one_default_index")
  let partitions ← need
    (db.partitions.insert? entry.1 ⟨generationId, entry.2.name, entry.2.isDefault, .active⟩)
    (.constraint "partitions_pkey")
  pure { db with partitions := partitions }

def insertTargetGeneration (db : Db) (namespaceId targetId : Id) (generation : Nat)
    (draw : TargetDraw) (spec : TargetSpec) : Except StoreError Db := do
  let row := newGenerationRow namespaceId targetId generation spec
  checkGenerationRow row
  ensure (!db.generations.any fun _ existing =>
      existing.targetId = targetId && existing.generation = generation)
    (.constraint "target_generations_number_unique")
  let generations ← need (db.generations.insert? draw.generationId row)
    (.constraint "target_generations_pkey")
  (spec.partitions.zipIdx.map fun entry => (draw.partitionId entry.2, entry.1)).foldlM
    (insertPartition draw.generationId) { db with generations := generations }

/-- The trigger on a new target: no target of a namespace is stamped earlier than one
before it. -/
def stampTargetCatalogCreation (db : Db) (namespaceId : Id) (clock : Time) : Time × Db :=
  let stamp :=
    match db.targetCatalogClocks.get? namespaceId with
    | none => clock
    | some last => max (last + 1) clock
  (stamp, { db with targetCatalogClocks :=
    db.targetCatalogClocks.upsert namespaceId clock fun _ => stamp })

/-- `insertTarget`. A taken name and a taken identity are both unique violations. -/
def insertTarget (env : Env) (db : Db) (authorization : Authorization) (draw : TargetDraw)
    (spec : TargetSpec) : Except StoreError Db := do
  let (createdAt, db) := stampTargetCatalogCreation db authorization.namespaceId draw.clock
  ensure (!db.targets.any fun _ target =>
      target.namespaceId = authorization.namespaceId && target.name = spec.name) .conflict
  let targets ← need
    (db.targets.insert? draw.targetId
      ⟨authorization.namespaceId, spec.name, .active, none, spec.kind, 1, createdAt,
        max env.now createdAt⟩) .conflict
  let db ← insertTargetGeneration { db with targets := targets } authorization.namespaceId
    draw.targetId 1 draw spec
  pure { db with
    targets := db.targets.modify draw.targetId fun target =>
      { target with currentGenerationId := some draw.generationId } }

def createTarget (env : Env) (authorization : Except StoreError Authorization)
    (idempotencyKey requestDigest : String) (draw : TargetDraw) (spec : TargetSpec) :
    Tx StoreError Db (Target × Bool) := fun db => do
  ensure (validIdempotencyKey idempotencyKey) (.invalid "invalid idempotency key")
  validateTargetSpec spec
  let authorization ← authorization
  let (replayed, db) ← reserveIdempotency db authorization .targetsCreate .target
    idempotencyKey requestDigest 201
  match replayed with
  | some targetId => do
      let target ← getTargetById db authorization.namespaceId targetId
      pure ((target, true), db)
  | none => do
      let db ← insertTarget env db authorization draw spec
      let db ← completeIdempotency env db authorization .targetsCreate idempotencyKey
        draw.targetId 201
      let db := db.appendAudit
        ⟨authorization.namespaceId, .principal authorization.principalId, .targetCreated, .target,
          draw.targetId, some requestDigest, some idempotencyKey⟩
      let target ← getTargetById db authorization.namespaceId draw.targetId
      pure ((target, false), db)

/-- The row the lock statement of `CreateTargetGeneration` returns. -/
structure LockedTarget where
  targetId : Id
  row : TargetRow
  currentGeneration : Nat
  deriving DecidableEq, Repr

def targetNamed (db : Db) (namespaceId : Id) (name : String) : Option (Id × TargetRow) :=
  (db.targets.select fun _ target =>
    target.namespaceId = namespaceId && target.name = name).head?

/-- The lock statement joins the target with its current generation. -/
def lockTargetGeneration (db : Db) (namespaceId : Id) (name : String) : Option LockedTarget := do
  let target ← targetNamed db namespaceId name
  let generationId ← target.2.currentGenerationId
  let generation ← db.generations.get? generationId
  pure ⟨target.1, target.2, generation.generation⟩

def TargetRow.selectGeneration (env : Env) (generationId : Id) (row : TargetRow) : TargetRow :=
  { row with
    currentGenerationId := some generationId
    revision := row.revision + 1
    updatedAt := env.now }

def selectTargetGeneration (env : Env) (authorization : Authorization)
    (idempotencyKey requestDigest : String) (draw : TargetDraw) (name : String)
    (locked : LockedTarget) (spec : TargetSpec) (db : Db) : Except StoreError Db := do
  let generation := locked.currentGeneration + 1
  let db ← insertTargetGeneration db authorization.namespaceId locked.targetId generation draw spec
  let db : Db :=
    { db with
      targets := db.targets.modify locked.targetId fun target =>
        if target.namespaceId = authorization.namespaceId then
          target.selectGeneration env draw.generationId
        else target }
  let db ← completeIdempotency env db authorization (.targetsGenerationsCreate name)
    idempotencyKey locked.targetId 200
  (db.appendAudit
    ⟨authorization.namespaceId, .principal authorization.principalId, .targetGenerationCreated,
      .target, locked.targetId, some requestDigest, some idempotencyKey⟩).insertOutbox env
    draw.outboxId authorization.namespaceId
    (.targetGenerationCreated locked.targetId draw.generationId generation)

/-- `CreateTargetGeneration`, with what its lock statement returned. -/
def createTargetGeneration (lock : Db → Id → String → Option LockedTarget) (env : Env)
    (authorization : Except StoreError Authorization) (name idempotencyKey requestDigest : String)
    (draw : TargetDraw) (change : TargetGenerationChange) :
    Tx StoreError Db (Target × Bool) := fun db => do
  ensure (validIdempotencyKey idempotencyKey ∧ validName name ∧ change.spec.name = name)
    (.invalid "invalid target generation request identity")
  validateTargetGenerationChange change
  let authorization ← authorization
  let locked ← need (lock db authorization.namespaceId name) .notFound
  let (replayed, db) ← reserveIdempotency db authorization (.targetsGenerationsCreate name) .target
    idempotencyKey requestDigest 200
  match replayed with
  | some targetId => do
      let target ← getTargetById db authorization.namespaceId targetId
      pure ((target, true), db)
  | none => do
      ensure (locked.row.state ≠ .retired ∧ locked.row.revision = change.expectedRevision ∧
        locked.row.kind = change.spec.kind) .conflict
      let db ← selectTargetGeneration env authorization idempotencyKey requestDigest draw name
        locked change.spec db
      let target ← getTargetById db authorization.namespaceId locked.targetId
      pure ((target, false), db)

/-- The states a target may be moved to; staying is always allowed. -/
def validTargetStateTransition (current requested : TargetState) : Bool :=
  current = requested ||
    match current with
    | .active => requested = .draining || requested = .disabled
    | .draining => requested = .active || requested = .disabled || requested = .retired
    | .disabled => requested = .active || requested = .retired
    | .retired => false

def TargetRow.enterState (env : Env) (state : TargetState) (row : TargetRow) : TargetRow :=
  { row with state := state, revision := row.revision + 1, updatedAt := env.now }

/-- The uses of `$3` in the outbox statement of `UpdateTargetState`: `aggregate_id` and
`$3::text`. -/
def targetStateOutboxUses : List ParameterUse := [.uuidColumn, .textCast]

/-- What `UpdateTargetState` writes once its checks have passed, with the uses of the
target's identity in the outbox statement. -/
def changeTargetState (uses : List ParameterUse) (env : Env) (authorization : Authorization)
    (idempotencyKey requestDigest name : String) (outboxId targetId : Id)
    (state : TargetState) (db : Db) : Except StoreError Db := do
  let db : Db :=
    { db with
      targets := db.targets.modify targetId fun target =>
        if target.namespaceId = authorization.namespaceId then target.enterState env state
        else target }
  let db ← completeIdempotency env db authorization (.targetsState name) idempotencyKey targetId 200
  let db := db.appendAudit
    ⟨authorization.namespaceId, .principal authorization.principalId, .targetStateChanged, .target,
      targetId, some requestDigest, some idempotencyKey⟩
  ensure (parameterResolves uses) (.invalid "inconsistent types deduced for parameter $3")
  db.insertOutbox env outboxId authorization.namespaceId (.targetStateChanged targetId state)

def updateTargetState (uses : List ParameterUse) (env : Env)
    (authorization : Except StoreError Authorization) (name idempotencyKey requestDigest : String)
    (outboxId : Id) (change : TargetStateChange) : Tx StoreError Db (Target × Bool) := fun db => do
  ensure (validIdempotencyKey idempotencyKey ∧ validName name)
    (.invalid "invalid target state request identity")
  validateTargetStateChange change
  let authorization ← authorization
  let target ← need (targetNamed db authorization.namespaceId name) .notFound
  let (replayed, db) ← reserveIdempotency db authorization (.targetsState name) .target
    idempotencyKey requestDigest 200
  match replayed with
  | some targetId => do
      let target ← getTargetById db authorization.namespaceId targetId
      pure ((target, true), db)
  | none => do
      ensure (target.2.revision = change.expectedRevision ∧
        validTargetStateTransition target.2.state change.state) .conflict
      let db ← changeTargetState uses env authorization idempotencyKey requestDigest name outboxId
        target.1 change.state db
      let target ← getTargetById db authorization.namespaceId target.1
      pure ((target, false), db)

/-! What each call writes. -/

section Writes

variable {env : Env} {authorization : Except StoreError Authorization}
  {key digest name : String} {draw : TargetDraw} {db db' : Db}

/-- Partitions are added to one generation. -/
structure Parted (generationId : Id) (t t' : Table Id PartitionRow) : Prop where
  origin : ∀ p partition, t'.get? p = some partition →
    t.get? p = some partition ∨ partition.targetGenerationId = generationId
  kept : ∀ p partition, t.get? p = some partition → t'.get? p = some partition

theorem insertPartitions_ok (h : l.foldlM (insertPartition generationId) db = .ok db') :
    ∃ partitions, Parted generationId db.partitions partitions ∧
      db' = { db with partitions := partitions } := by
  refine foldlM_ok_induction (P := fun d => ∃ partitions,
    Parted generationId db.partitions partitions ∧ d = { db with partitions := partitions })
    l ?_ ⟨db.partitions, ⟨fun _ _ => Or.inl, fun _ _ => id⟩, rfl⟩ h
  rintro _ entry d' - ⟨partitions, hparted, rfl⟩ hstep
  simp only [insertPartition, bind_ok_iff, need_ok_iff, pure_ok_iff] at hstep
  obtain ⟨-, -, -, -, -, -, partitions', hinsert, rfl⟩ := hstep
  refine ⟨partitions', ⟨fun p partition hrow => ?_, fun p partition hrow =>
    Table.insert?_keeps hinsert (hparted.kept p partition hrow)⟩, rfl⟩
  rw [Table.get?_insert hinsert] at hrow
  split at hrow
  · cases hrow
    exact Or.inr rfl
  · exact hparted.origin p partition hrow

theorem insertTargetGeneration_ok {spec : TargetSpec}
    (h : insertTargetGeneration db namespaceId targetId generation draw spec = .ok db') :
    ∃ generations partitions,
      db.generations.insert? draw.generationId
        (newGenerationRow namespaceId targetId generation spec) = some generations ∧
      Parted draw.generationId db.partitions partitions ∧
      db' = { db with generations := generations, partitions := partitions } := by
  simp only [insertTargetGeneration, bind_ok_iff, need_ok_iff] at h
  obtain ⟨-, -, -, -, generations, hgenerations, hpartitions⟩ := h
  obtain ⟨partitions, hparted, rfl⟩ := insertPartitions_ok hpartitions
  exact ⟨generations, partitions, hgenerations, hparted, rfl⟩

/-- The statements of a creation that is not a replay. -/
structure Creating (env : Env) (granted : Authorization) (draw : TargetDraw) (spec : TargetSpec)
    (generations : Table Id GenerationRow) (createdAt : Time) (db db' : Db) : Prop where
  valid : validateTargetSpec spec = .ok ()
  named : ∀ t row, db.targets.get? t = some row → row.namespaceId = granted.namespaceId →
    row.name ≠ spec.name
  housed : ∃ name, db.namespaces.get? granted.namespaceId = some name
  targetFree : db.targets.get? draw.targetId = none
  generation : db.generations.insert? draw.generationId
    (newGenerationRow granted.namespaceId draw.targetId 1 spec) = some generations
  targets : ∀ t, db'.targets.get? t = if t = draw.targetId then
    some ⟨granted.namespaceId, spec.name, .active, some draw.generationId, spec.kind, 1, createdAt,
      max env.now createdAt⟩ else db.targets.get? t
  parted : Parted draw.generationId db.partitions db'.partitions
  rest : ∃ targets partitions clocks idempotency audit, db' = { db with
    targets := targets, generations := generations, partitions := partitions
    targetCatalogClocks := clocks, idempotency := idempotency, audit := audit }

theorem createTarget_id {spec : TargetSpec}
    (h : createTarget env authorization key digest draw spec db = .ok ((result, false), db')) :
    result.id = draw.targetId := by
  simp only [createTarget, bind_ok_iff, Prod.exists] at h
  obtain ⟨-, -, _, -, granted, rfl, replayed, db₁, -, h⟩ := h
  split at h <;> simp only [bind_ok_iff, pure_ok_iff, Prod.mk.injEq] at h
  · obtain ⟨_, -, ⟨-, hfalse⟩, -⟩ := h
    cases hfalse
  · obtain ⟨_, -, _, -, _, hget, ⟨rfl, -⟩, -⟩ := h
    exact getTargetById_id hget

theorem createTarget_ok {spec : TargetSpec}
    (h : createTarget env authorization key digest draw spec db = .ok ((result, replayed), db')) :
    (replayed = true ∧ db' = db) ∨ ∃ granted generations createdAt,
      Creating env granted draw spec generations createdAt db db' := by
  simp only [createTarget, bind_ok_iff, Prod.exists] at h
  obtain ⟨-, -, _, hvalid, granted, -, _, db₁, hreserve, h⟩ := h
  obtain ⟨-, ⟨rfl, idempotency, -, rfl⟩ | ⟨response, -, -, rfl, rfl⟩⟩ :=
    reserveIdempotency_cases hreserve
  · simp only [insertTarget, bind_ok_iff, need_ok_iff, pure_ok_iff, Prod.mk.injEq] at h
    obtain ⟨_, ⟨_, hnamed, targets, htargets, _, hgeneration, rfl⟩, _, hcomplete, target, hget,
      -, rfl⟩ := h
    obtain ⟨generations, partitions, hinsert, hparted, rfl⟩ := insertTargetGeneration_ok hgeneration
    obtain ⟨idempotency', rfl⟩ := completeIdempotency_ok hcomplete
    refine Or.inr ⟨granted, generations,
      (stampTargetCatalogCreation db granted.namespaceId draw.clock).1, hvalid, ?_, ?_, ?_, hinsert,
      ?_, hparted, ⟨_, _, _, _, _, rfl⟩⟩
    · intro t row hrow hns hname
      have hfree : (!db.targets.any fun _ target =>
          target.namespaceId = granted.namespaceId && target.name = spec.name) = true :=
        (ensure_ok_iff _ _ _).mp hnamed
      rw [Bool.not_eq_true', Table.any_eq_false_iff] at hfree
      simpa [hns, hname] using hfree t row hrow
    · simp only [getTargetById, bind_ok_iff, need_ok_iff, ensure_ok_iff] at hget
      obtain ⟨row, -, -, hns, name, hname, -⟩ := hget
      exact ⟨name, hns ▸ hname⟩
    · exact Table.insert?_free htargets
    · intro t
      simp only [Db.appendAudit, Table.get?_modify, Table.get?_insert htargets]
      split <;> rfl
  · simp only [bind_ok_iff, pure_ok_iff, Prod.mk.injEq] at h
    obtain ⟨_, -, ⟨-, rfl⟩, rfl⟩ := h
    exact Or.inl ⟨rfl, rfl⟩

theorem targetNamed_some {row : TargetRow}
    (h : targetNamed db namespaceId name = some (targetId, row)) :
    db.targets.get? targetId = some row ∧ row.namespaceId = namespaceId ∧ row.name = name := by
  have hmem := List.mem_of_head? h
  rw [Table.mem_select, Bool.and_eq_true, decide_eq_true_eq, decide_eq_true_eq] at hmem
  exact hmem

/-- The statements of a generation that is not a replay. -/
structure Selecting (env : Env) (granted : Authorization) (draw : TargetDraw)
    (locked : LockedTarget) (change : TargetGenerationChange)
    (generations : Table Id GenerationRow) (db db' : Db) : Prop where
  valid : validateTargetGenerationChange change = .ok ()
  revision : locked.row.revision = change.expectedRevision
  generation : db.generations.insert? draw.generationId
    (newGenerationRow granted.namespaceId locked.targetId (locked.currentGeneration + 1)
      change.spec) = some generations
  targets : ∀ t, db'.targets.get? t = if t = locked.targetId then
    (db.targets.get? t).map (fun row => if row.namespaceId = granted.namespaceId then
      row.selectGeneration env draw.generationId else row) else db.targets.get? t
  parted : Parted draw.generationId db.partitions db'.partitions
  rest : ∃ targets partitions idempotency audit outbox, db' = { db with
    targets := targets, generations := generations, partitions := partitions
    idempotency := idempotency, audit := audit, outbox := outbox }

theorem createTargetGeneration_ok {lock : Db → Id → String → Option LockedTarget}
    {change : TargetGenerationChange}
    (h : createTargetGeneration lock env authorization name key digest draw change db =
      .ok ((result, replayed), db')) :
    ∃ granted locked, authorization = .ok granted ∧
      lock db granted.namespaceId name = some locked ∧
      (IdempotentOperation.targetsGenerationsCreate name).text.length ≤ 128 ∧
      ((replayed = true ∧ db' = db ∧ ∃ response,
          db.idempotency.get? (granted.record (.targetsGenerationsCreate name) key) =
            some ⟨digest, .target, some response⟩ ∧ response.resourceId = result.id) ∨
        (replayed = false ∧
          db.idempotency.get? (granted.record (.targetsGenerationsCreate name) key) = none ∧
          result.id = locked.targetId ∧
          ∃ generations, Selecting env granted draw locked change generations db db')) := by
  simp only [createTargetGeneration, bind_ok_iff, need_ok_iff, Prod.exists] at h
  obtain ⟨-, -, _, hvalid, granted, rfl, locked, hlocked, _, db₁, hreserve, h⟩ := h
  obtain ⟨hlength, hcases⟩ := reserveIdempotency_cases hreserve
  refine ⟨granted, locked, rfl, hlocked, hlength, ?_⟩
  obtain ⟨rfl, idempotency, hinsert, rfl⟩ | ⟨response, hrow, -, rfl, rfl⟩ := hcases
  · simp only [selectTargetGeneration, bind_ok_iff, ensure_ok_iff, pure_ok_iff, Prod.mk.injEq] at h
    obtain ⟨-, ⟨-, hrevision, -⟩, _, ⟨_, hgeneration, _, hcomplete, houtbox⟩, _, hget,
      ⟨rfl, rfl⟩, rfl⟩ := h
    obtain ⟨generations, partitions, hgenerations, hparted, rfl⟩ :=
      insertTargetGeneration_ok hgeneration
    obtain ⟨idempotency', rfl⟩ := completeIdempotency_ok hcomplete
    obtain ⟨outbox, rfl⟩ := insertOutbox_ok houtbox
    refine Or.inr ⟨rfl, Table.insert?_free hinsert, getTargetById_id hget,
      generations, hvalid, hrevision, hgenerations, ?_, hparted, ⟨_, _, _, _, _, rfl⟩⟩
    intro t
    simp only [Db.appendAudit, Table.get?_modify]
  · simp only [bind_ok_iff, pure_ok_iff, Prod.mk.injEq] at h
    obtain ⟨_, hget, ⟨rfl, rfl⟩, rfl⟩ := h
    exact Or.inl ⟨rfl, rfl, response, hrow, (getTargetById_id hget).symm⟩

theorem createTargetGeneration_records {lock : Db → Id → String → Option LockedTarget}
    {granted : Authorization} {change : TargetGenerationChange}
    (h : createTargetGeneration lock env (.ok granted) name key digest draw change db =
      .ok ((result, false), db')) (k : IdempotencyKey) :
    db'.idempotency.get? k = if k = granted.record (.targetsGenerationsCreate name) key then
      some ⟨digest, .target, some ⟨result.id, 200, env.now⟩⟩ else db.idempotency.get? k := by
  simp only [createTargetGeneration, bind_ok_iff, need_ok_iff, Prod.exists] at h
  obtain ⟨-, -, -, -, _, hgranted, locked, -, _, db₁, hreserve, h⟩ := h
  cases hgranted
  obtain ⟨-, ⟨rfl, idempotency, hinsert, rfl⟩ | ⟨_, -, -, rfl, -⟩⟩ :=
    reserveIdempotency_cases hreserve
  · simp only [selectTargetGeneration, bind_ok_iff, pure_ok_iff, Prod.mk.injEq] at h
    obtain ⟨-, -, _, ⟨_, hgeneration, _, hcomplete, houtbox⟩, _, hget, ⟨rfl, -⟩, rfl⟩ := h
    obtain ⟨generations, partitions, -, -, rfl⟩ := insertTargetGeneration_ok hgeneration
    have hrecords := reserve_complete_get? hreserve hcomplete rfl k
    obtain ⟨outbox, rfl⟩ := insertOutbox_ok houtbox
    rw [getTargetById_id hget]
    exact hrecords
  · simp only [bind_ok_iff, pure_ok_iff, Prod.mk.injEq] at h
    obtain ⟨_, -, ⟨-, hfalse⟩, -⟩ := h
    cases hfalse

/-- The statements of a state change that is not a replay. -/
structure Moving (env : Env) (targetId : Id) (row : TargetRow) (state : TargetState) (db db' : Db) :
    Prop where
  targets : ∀ t, db'.targets.get? t = if t = targetId then some (row.enterState env state)
    else db.targets.get? t
  rest : ∃ targets idempotency audit outbox, db' = { db with
    targets := targets, idempotency := idempotency, audit := audit, outbox := outbox }

theorem updateTargetState_ok {uses : List ParameterUse} {outboxId : Id} {change : TargetStateChange}
    (h : updateTargetState uses env authorization name key digest outboxId change db =
      .ok ((result, replayed), db')) :
    ∃ namespaceId targetId row, targetNamed db namespaceId name = some (targetId, row) ∧
      ((replayed = true ∧ db' = db) ∨
        (parameterResolves uses = true ∧ Moving env targetId row change.state db db')) := by
  simp only [updateTargetState, bind_ok_iff, need_ok_iff, Prod.exists] at h
  obtain ⟨-, -, _, -, granted, -, targetId, row, hnamed, _, db₁, hreserve, h⟩ := h
  refine ⟨granted.namespaceId, targetId, row, hnamed, ?_⟩
  obtain ⟨hrow, hns, -⟩ := targetNamed_some hnamed
  obtain ⟨-, ⟨rfl, idempotency, -, rfl⟩ | ⟨response, -, -, rfl, rfl⟩⟩ :=
    reserveIdempotency_cases hreserve
  · simp only [changeTargetState, bind_ok_iff, ensure_ok_iff, pure_ok_iff, Prod.mk.injEq] at h
    obtain ⟨-, -, _, ⟨_, hcomplete, -, hresolves, houtbox⟩, _, -, -, rfl⟩ := h
    obtain ⟨idempotency', rfl⟩ := completeIdempotency_ok hcomplete
    obtain ⟨outbox, rfl⟩ := insertOutbox_ok houtbox
    refine Or.inr ⟨hresolves, ?_, ⟨_, _, _, _, rfl⟩⟩
    intro t
    simp only [Db.appendAudit, Table.get?_modify]
    split
    · rename_i ht
      simp [ht, hrow, hns]
    · rfl
  · simp only [bind_ok_iff, pure_ok_iff, Prod.mk.injEq] at h
    obtain ⟨_, -, ⟨-, rfl⟩, rfl⟩ := h
    exact Or.inl ⟨rfl, rfl⟩

end Writes

/-! When the statements go through. -/

section Accepted

variable {db : Db} {draw : TargetDraw} {spec : TargetSpec}

/-- What the constraints of the tables ask of a specification. -/
structure TargetSpec.Storable (spec : TargetSpec) : Prop where
  name : validName spec.name = true
  runtimes : spec.runtimes ≠ [] ∧ ∀ runtime ∈ spec.runtimes, runtime ∈ ["native", "container"]
  logStore : (spec.logStoreName = "" ∧ spec.logStoreVersion = 0) ∨
    (spec.logStoreName ≠ "" ∧ validStoreName spec.logStoreName = true ∧ 1 ≤ spec.logStoreVersion)
  partitionNames : ∀ partition ∈ spec.partitions, validName partition.name = true
  distinct : (spec.partitions.map (·.name)).Nodup
  oneDefault : (spec.partitions.filter (·.isDefault)).length ≤ 1

/-- The identities a call draws for a specification are new and distinct. -/
structure TargetDraw.Fresh (draw : TargetDraw) (spec : TargetSpec) (db : Db) : Prop where
  generation : db.generations.get? draw.generationId = none
  outbox : db.outbox.get? draw.outboxId = none
  partition : ∀ i < spec.partitions.length, db.partitions.get? (draw.partitionId i) = none
  distinct : ((List.range spec.partitions.length).map draw.partitionId).Nodup

instance (draw : TargetDraw) (spec : TargetSpec) (db : Db) : Decidable (draw.Fresh spec db) :=
  decidable_of_iff
    ((db.generations.get? draw.generationId).isNone ∧ (db.outbox.get? draw.outboxId).isNone ∧
      (∀ i < spec.partitions.length, (db.partitions.get? (draw.partitionId i)).isNone) ∧
      ((List.range spec.partitions.length).map draw.partitionId).Nodup)
    ⟨fun ⟨hg, ho, hp, hd⟩ => ⟨Option.isNone_iff_eq_none.mp hg, Option.isNone_iff_eq_none.mp ho,
        fun i hi => Option.isNone_iff_eq_none.mp (hp i hi), hd⟩,
      fun ⟨hg, ho, hp, hd⟩ => ⟨Option.isNone_iff_eq_none.mpr hg, Option.isNone_iff_eq_none.mpr ho,
        fun i hi => Option.isNone_iff_eq_none.mpr (hp i hi), hd⟩⟩

theorem validateSortedValues_mem {field : String} {allowed : Option (List String)}
    {previous : Option String} {values : List String}
    (h : validateSortedValues field allowed previous values = .ok ()) :
    ∀ value ∈ values, validName value = true ∧ ∀ names ∈ allowed, value ∈ names := by
  induction values generalizing previous with
  | nil => exact fun _ hmem => by cases hmem
  | cons value rest ih =>
      simp only [validateSortedValues, bind_ok_iff, ensure_ok_iff] at h
      obtain ⟨-, hvalid, -, -, -, hallowed, hrest⟩ := h
      intro other hmem
      obtain rfl | hmem := List.mem_cons.mp hmem
      · exact ⟨hvalid, hallowed⟩
      · exact ih hrest other hmem

theorem validatePartitions_ok {seen : List String} {partitions : List PartitionSpec}
    (h : validatePartitions seen partitions = .ok ()) :
    (∀ partition ∈ partitions, validName partition.name = true ∧ partition.name ∉ seen) ∧
      (partitions.map (·.name)).Nodup := by
  induction partitions generalizing seen with
  | nil => exact ⟨fun _ hmem => (by cases hmem), List.nodup_nil⟩
  | cons first rest ih =>
      simp only [validatePartitions, bind_ok_iff, ensure_ok_iff] at h
      obtain ⟨-, hvalid, -, hseen, hrest⟩ := h
      obtain ⟨hnames, hnodup⟩ := ih hrest
      refine ⟨?_, ?_⟩
      · intro partition hmem
        obtain rfl | hmem := List.mem_cons.mp hmem
        · exact ⟨hvalid, hseen⟩
        · exact ⟨(hnames partition hmem).1, fun hs =>
            (hnames partition hmem).2 (List.mem_cons_of_mem _ hs)⟩
      · rw [List.map_cons, List.nodup_cons]
        refine ⟨?_, hnodup⟩
        intro hmem
        obtain ⟨partition, hpartition, hname⟩ := List.mem_map.mp hmem
        exact (hnames partition hpartition).2 (by rw [hname]; exact List.mem_cons_self)

/-- A specification that passes its checks meets the constraints. -/
theorem validateTargetSpec_storable (h : validateTargetSpec spec = .ok ()) : spec.Storable := by
  simp only [validateTargetSpec, validateSortedSet, bind_ok_iff, ensure_ok_iff] at h
  obtain ⟨-, hname, -, -, -, -, _, ⟨-, hruntimes, -, -, hknown⟩, -, -, -, -, -, -, -, htogether, -,
    hlogStore, -, -, -, -, -, -, _, hpartitions, hdefault⟩ := h
  obtain ⟨hnames, hdistinct⟩ := validatePartitions_ok hpartitions
  refine ⟨hname, ⟨hruntimes trivial,
      fun runtime hmem => (validateSortedValues_mem hknown runtime hmem).2 _ rfl⟩, ?_,
    fun p hp => (hnames p hp).1, hdistinct, hdefault⟩
  by_cases hstore : spec.logStoreName = ""
  · exact Or.inl ⟨hstore, htogether.mp hstore⟩
  · exact Or.inr ⟨hstore, hlogStore hstore⟩

theorem checkGenerationRow_storable (h : spec.Storable) :
    checkGenerationRow (newGenerationRow namespaceId targetId (generation + 1) spec) = .ok () := by
  rw [checkGenerationRow, ensure_of_true (by simp [newGenerationRow]), ok_bind,
    ensure_of_true (by simpa [newGenerationRow] using h.runtimes), ok_bind]
  refine ensure_of_true ?_ _
  obtain ⟨hname, hversion⟩ | ⟨hname, hvalid, hversion⟩ := h.logStore
  · exact Or.inl ⟨if_pos hname, if_pos hversion⟩
  · refine Or.inr ⟨?_, ?_⟩
    · simp [newGenerationRow, hname, hvalid]
    · simp only [newGenerationRow, if_neg (by lia : ¬spec.logStoreVersion = 0), Option.any_some,
        decide_eq_true_eq]
      lia

theorem insertPartitions_fresh (l : List (Id × PartitionSpec))
    (hids : ∀ entry ∈ l, db.partitions.get? entry.1 = none) (hdistinct : (l.map Prod.fst).Nodup)
    (hvalid : ∀ entry ∈ l, validName entry.2.name = true) (hnodup : (l.map (·.2.name)).Nodup)
    (hdefault : (l.filter (·.2.isDefault)).length ≤ 1)
    (hnew : ∀ p partition, db.partitions.get? p = some partition →
      partition.targetGenerationId = generationId →
      partition.name ∉ l.map (·.2.name) ∧
        (partition.isDefault = true → ∀ entry ∈ l, entry.2.isDefault = false)) :
    ∃ db', l.foldlM (insertPartition generationId) db = .ok db' := by
  induction l generalizing db with
  | nil => exact ⟨db, rfl⟩
  | cons entry rest ih =>
      rw [List.map_cons, List.nodup_cons] at hdistinct hnodup
      obtain ⟨partitions, hinsert⟩ := Table.insert?_isSome db.partitions entry.1
        ⟨generationId, entry.2.name, entry.2.isDefault, .active⟩ (hids entry List.mem_cons_self)
      have hstep : insertPartition generationId db entry =
          .ok { db with partitions := partitions } := by
        have hname : (db.partitions.any fun _ partition =>
            partition.targetGenerationId = generationId && partition.name = entry.2.name) =
            false := by
          rw [Table.any_eq_false_iff]
          intro p partition hp
          rw [Bool.and_eq_false_iff, decide_eq_false_iff_not, decide_eq_false_iff_not]
          by_cases hg : partition.targetGenerationId = generationId
          · refine Or.inr fun hn => (hnew p partition hp hg).1 ?_
            rw [hn]
            exact List.mem_cons_self
          · exact Or.inl hg
        have hone : entry.2.isDefault = true → (db.partitions.any fun _ partition =>
            partition.targetGenerationId = generationId && partition.isDefault) = false := by
          intro hd
          rw [Table.any_eq_false_iff]
          intro p partition hp
          rw [Bool.and_eq_false_iff, decide_eq_false_iff_not]
          by_cases hg : partition.targetGenerationId = generationId
          · refine Or.inr (Bool.eq_false_iff.mpr fun hdef => ?_)
            have := (hnew p partition hp hg).2 hdef entry List.mem_cons_self
            cases hd.symm.trans this
          · exact Or.inl hg
        rw [insertPartition, ensure_of_true (by simpa using hvalid entry List.mem_cons_self),
          ok_bind, ensure_of_true (by simp [hname]), ok_bind,
          ensure_of_true (by simpa using hone), ok_bind, need_of_eq_some hinsert]
        rfl
      rw [List.foldlM_cons, hstep, ok_bind]
      refine ih ?_ hdistinct.2 (fun e he => hvalid e (List.mem_cons_of_mem _ he)) hnodup.2 ?_ ?_
      · intro e he
        dsimp only
        rw [Table.get?_insert hinsert, if_neg]
        · exact hids e (List.mem_cons_of_mem _ he)
        · intro heq
          exact hdistinct.1 (heq ▸ List.mem_map_of_mem he)
      · rw [List.filter_cons] at hdefault
        split at hdefault
        · rw [List.length_cons] at hdefault
          lia
        · exact hdefault
      · intro p partition hp hg
        dsimp only at hp
        rw [Table.get?_insert hinsert] at hp
        split at hp
        · cases hp
          refine ⟨hnodup.1, fun hd e he => ?_⟩
          -- the inserted partition is the default, so the list that follows has none
          rw [List.filter_cons, if_pos hd, List.length_cons] at hdefault
          have hnil : rest.filter (·.2.isDefault) = [] := List.length_eq_zero_iff.mp (by lia)
          exact Bool.eq_false_iff.mpr (List.filter_eq_nil_iff.mp hnil e he)
        · obtain ⟨hname, hdef⟩ := hnew p partition hp hg
          exact ⟨fun hmem => hname (List.mem_cons_of_mem _ hmem),
            fun hd e he => hdef hd e (List.mem_cons_of_mem _ he)⟩

theorem insertTargetGeneration_fresh (namespaceId : Id) (hspec : spec.Storable)
    (hfresh : draw.Fresh spec db)
    (hnumber : ∀ g row, db.generations.get? g = some row → row.targetId = targetId →
      row.generation ≠ generation + 1)
    (hparted : ∀ p partition, db.partitions.get? p = some partition →
      partition.targetGenerationId ≠ draw.generationId) :
    ∃ db', insertTargetGeneration db namespaceId targetId (generation + 1) draw spec = .ok db' := by
  obtain ⟨generations, hinsert⟩ := Table.insert?_isSome db.generations draw.generationId
    (newGenerationRow namespaceId targetId (generation + 1) spec) hfresh.generation
  have hunique : (db.generations.any fun _ existing =>
      existing.targetId = targetId && existing.generation = generation + 1) = false := by
    rw [Table.any_eq_false_iff]
    intro g row hrow
    rw [Bool.and_eq_false_iff, decide_eq_false_iff_not, decide_eq_false_iff_not]
    by_cases ht : row.targetId = targetId
    · exact Or.inr (hnumber g row hrow ht)
    · exact Or.inl ht
  have hnames : (spec.partitions.zipIdx.map fun entry =>
      (draw.partitionId entry.2, entry.1)).map Prod.snd = spec.partitions := by
    rw [List.map_map]
    exact List.zipIdx_map_fst 0 spec.partitions
  simp only [insertTargetGeneration, checkGenerationRow_storable hspec, ok_bind,
    ensure_of_true (by simp [hunique] : (!db.generations.any fun _ existing =>
      existing.targetId = targetId && existing.generation = generation + 1) = true),
    need_of_eq_some hinsert]
  refine insertPartitions_fresh _ ?_ ?_ ?_ ?_ ?_ ?_
  · intro entry hentry
    obtain ⟨e, he, rfl⟩ := List.mem_map.mp hentry
    exact hfresh.partition e.2 (List.snd_lt_of_mem_zipIdx he)
  · have hdistinct := hfresh.distinct
    rw [List.range_eq_range', ← List.zipIdx_map_snd, List.map_map] at hdistinct
    rw [List.map_map]
    exact hdistinct
  · intro entry hentry
    exact hspec.partitionNames entry.2 (hnames ▸ List.mem_map_of_mem hentry)
  · have hdistinct := hspec.distinct
    rw [← hnames, List.map_map] at hdistinct
    exact hdistinct
  · have hdefault := hspec.oneDefault
    rw [← hnames, List.filter_map, List.length_map] at hdefault
    exact hdefault
  · intro p partition hp hg
    exact absurd hg (hparted p partition hp)

end Accepted

end JobmanControl
