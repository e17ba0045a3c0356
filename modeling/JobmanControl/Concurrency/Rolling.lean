import JobmanControl.Catalog.Draining
import JobmanControl.Library.Revisions
import JobmanControl.Library.Session

/-!
Requests for new generations of one target that interleave. The lock statement joins the
target with its current generation as of the moment it began. A request that had to wait
sees the target as it is now, joined with the generation it found then; if the target has
been rolled in between, the two no longer match and the statement returns no row. As long
as that does not happen, the requests are answered as if they came one after another.
-/

namespace JobmanControl

open Relational Interleaving

structure RollCall where
  env : Env
  principalId : Id
  key : String
  digest : String
  draw : TargetDraw
  change : TargetGenerationChange

inductive RollStage
  | starting
  /-- The statement has found this row and waits for its lock. -/
  | waiting (seen : Option LockedTarget)
  /-- The statement has returned. -/
  | locked (row : Option LockedTarget)

structure Roller where
  call : RollCall
  stage : RollStage

structure Rolled where
  call : RollCall
  answer : Except StoreError (Target × Bool)

/-- The committed state, and the requests answered so far, the latest first. -/
structure RollState where
  db : Db
  finished : List Rolled

/-- The target all requests are for. -/
structure TargetAddress where
  namespaceId : Id
  name : String

namespace TargetAddress

variable (address : TargetAddress)

def granted (call : RollCall) : Authorization := ⟨address.namespaceId, call.principalId, false⟩

def record (call : RollCall) : IdempotencyKey :=
  (address.granted call).record (.targetsGenerationsCreate address.name) call.key

/-- What the lock statement returns once it has the lock: the target as it is now, if it
still matches the generation the statement began with. -/
def recheck (db : Db) (seen : LockedTarget) : Option LockedTarget := do
  let row ← db.targets.get? seen.targetId
  guard (row.namespaceId = address.namespaceId ∧ row.name = address.name ∧
    row.currentGenerationId = seen.row.currentGenerationId)
  pure ⟨seen.targetId, row, seen.currentGeneration⟩

/-- The transaction, with the row its lock statement returned. -/
def answer (call : RollCall) (row : Option LockedTarget) :
    Tx StoreError Db (Target × Bool) :=
  createTargetGeneration (fun _ _ _ => row) call.env (.ok (address.granted call)) address.name
    call.key call.digest call.draw call.change

def advance (db : Db) (roller : Roller) : Roller :=
  { roller with
    stage :=
      match roller.stage with
      | .starting => .waiting (lockTargetGeneration db address.namespaceId address.name)
      | .waiting seen => .locked (seen.bind (address.recheck db))
      | .locked row => .locked row }

def finish (state : RollState) (roller : Roller) : Option RollState :=
  match roller.stage with
  | .locked row => some
      ⟨atomically (address.answer roller.call row) state.db,
        ⟨roller.call, (address.answer roller.call row state.db).map Prod.fst⟩ :: state.finished⟩
  | .starting | .waiting _ => none

def rolling : Protocol RollState Roller RollCall Empty Id where
  call call := nomatch call
  start call := ⟨call, .starting⟩
  wants _ _ roller :=
    match roller.stage with
    | .waiting (some seen) => [seen.targetId]
    | _ => []
  advance _ state roller := address.advance state.db roller
  commit roller state := address.finish state roller
  same t state state' := state.db.targets.get? t = state'.db.targets.get? t

end TargetAddress

abbrev RollWorld := World RollState Roller Id

/-- When a request gets the lock, the target's generation is still the one its statement
began with. -/
def generationStands (w : RollWorld) : Action RollCall Empty → Bool
  | .advance i =>
      match (w.sessions.get? i).map fun s => s.state.stage with
      | some (RollStage.waiting (some seen)) =>
          (w.committed.db.targets.get? seen.targetId).any fun row =>
            row.currentGenerationId = seen.row.currentGenerationId
      | _ => true
  | _ => true

/-- The identities a request has drawn are new when it writes them. -/
def drawsFresh (w : RollWorld) : Action RollCall Empty → Bool
  | .commit i => (w.sessions.get? i).all fun s =>
      s.state.call.draw.Fresh s.state.call.change.spec w.committed.db
  | _ => true

/-! One request at a time. -/

section Answers

variable {db db' : Db} {t : Id} {row : TargetRow} {address : TargetAddress} {call : RollCall}

/-- The request is one that only its record and the target's revision can refuse. -/
def RollCall.valid (name : String) (kind : TargetKind) (call : RollCall) : Bool :=
  validIdempotencyKey call.key && decide (call.change.spec.name = name) &&
    decide (call.change.spec.kind = kind) &&
    (validateTargetGenerationChange call.change).toOption.isSome

theorem RollCall.valid_iff {name : String} {kind : TargetKind} :
    call.valid name kind = true ↔ validIdempotencyKey call.key = true ∧
      call.change.spec.name = name ∧ call.change.spec.kind = kind ∧
      validateTargetGenerationChange call.change = .ok () := by
  simp only [RollCall.valid, Bool.and_eq_true, decide_eq_true_eq, Option.isSome_iff_exists,
    toOption_eq_some_iff, and_assoc]
  refine and_congr_right fun _ => and_congr_right fun _ => and_congr_right fun _ => ?_
  exact ⟨by rintro ⟨_, h⟩; exact h, fun h => ⟨(), h⟩⟩

structure Addressed (address : TargetAddress) (t : Id) (db : Db) (row : TargetRow) : Prop where
  cataloged : db.Cataloged
  stored : db.targets.get? t = some row
  owner : row.namespaceId = address.namespaceId
  name : row.name = address.name
  serving : row.state ≠ .retired
  short : address.name.length ≤ 101

theorem Addressed.lock (h : Addressed address t db row) : ∃ n,
    lockTargetGeneration db address.namespaceId address.name = some ⟨t, row, n⟩ := by
  obtain ⟨g, generation, hcurrent⟩ := h.cataloged.current t row h.stored
  refine ⟨generation.generation, ?_⟩
  rw [lockTargetGeneration, ← h.owner, ← h.name, h.cataloged.targetNamed h.stored]
  simp [hcurrent.selected, hcurrent.stored]

theorem Addressed.operation_fits (h : Addressed address t db row) :
    (IdempotentOperation.targetsGenerationsCreate address.name).text.length ≤ 128 := by
  have := h.short
  rw [operationText_length]
  lia

/-- The transaction of a request whose lock statement returned the current row. -/
def TargetAddress.serial (address : TargetAddress) (call : RollCall) :
    Tx StoreError Db (Target × Bool) :=
  createTargetGeneration lockTargetGeneration call.env (.ok (address.granted call)) address.name
    call.key call.digest call.draw call.change

theorem answer_eq_serial {locked : Option LockedTarget}
    (h : lockTargetGeneration db address.namespaceId address.name = locked) :
    address.answer call locked db = address.serial call db := by
  subst h
  rfl

theorem Addressed.wins (h : Addressed address t db row)
    (hvalid : call.valid address.name row.kind = true)
    (hfree : db.idempotency.get? (address.record call) = none)
    (hrevision : call.change.expectedRevision = row.revision)
    (hfresh : call.draw.Fresh call.change.spec db) :
    ∃ result db', address.serial call db = .ok ((result, false), db') := by
  obtain ⟨hkey, hname, hkind, hchange⟩ := RollCall.valid_iff.mp hvalid
  have hrequest : RollRequest db (address.granted call) row call.key call.draw call.change :=
    ⟨h.owner.symm, hchange, hname.trans h.name.symm, hkind, hrevision, hkey, h.name ▸ hfree, hfresh⟩
  obtain ⟨result, db', hok, -⟩ := (h.cataloged.createTargetGeneration_iff call.env h.stored
    h.serving call.digest hrequest).mpr (h.name ▸ h.short)
  rw [h.name] at hok
  exact ⟨result, db', hok⟩

def TargetAddress.rest (address : TargetAddress) (call : RollCall) (locked : LockedTarget)
    (db : Db) : Option Id → Except StoreError ((Target × Bool) × Db)
  | some targetId => do
      let target ← getTargetById db address.namespaceId targetId
      pure ((target, true), db)
  | none => do
      ensure (locked.row.state ≠ .retired ∧
        locked.row.revision = call.change.expectedRevision ∧
        locked.row.kind = call.change.spec.kind) .conflict
      let db ← selectTargetGeneration call.env (address.granted call) call.key call.digest
        call.draw address.name locked call.change.spec db
      let target ← getTargetById db address.namespaceId locked.targetId
      pure ((target, false), db)

theorem serial_eq {locked : LockedTarget} {kind : TargetKind} {replayed : Option Id} {db₁ : Db}
    (hvalid : call.valid address.name kind = true)
    (hlock : lockTargetGeneration db address.namespaceId address.name = some locked)
    (hreserve : reserveIdempotency db (address.granted call)
      (.targetsGenerationsCreate address.name) .target call.key call.digest 200 =
        .ok (replayed, db₁)) :
    address.serial call db = address.rest call locked db₁ replayed := by
  obtain ⟨hkey, hname, -, hchange⟩ := RollCall.valid_iff.mp hvalid
  have hvalidName : validName address.name = true := by
    simp only [validateTargetGenerationChange, bind_ok_iff] at hchange
    obtain ⟨_, -, hspec⟩ := hchange
    exact hname ▸ (validateTargetSpec_storable hspec).name
  rw [TargetAddress.serial, createTargetGeneration,
    ensure_of_true (by simp [hkey, hvalidName, hname]), ok_bind, hchange, ok_bind]
  change (need (lockTargetGeneration db address.namespaceId address.name) StoreError.notFound >>=
    fun locked => _) = _
  rw [need_of_eq_some hlock, ok_bind, hreserve, ok_bind]
  cases replayed <;> rfl

theorem Addressed.loses (h : Addressed address t db row)
    (hvalid : call.valid address.name row.kind = true)
    (hfree : db.idempotency.get? (address.record call) = none)
    (hrevision : call.change.expectedRevision ≠ row.revision) :
    address.serial call db = .error .conflict := by
  obtain ⟨n, hlock⟩ := h.lock
  obtain ⟨records, hreserve, -⟩ := reserve_complete_fresh call.env t .target call.digest 200
    h.operation_fits hfree
  rw [serial_eq hvalid hlock hreserve, TargetAddress.rest,
    ensure_of_false fun hall => hrevision hall.2.1.symm]
  rfl

theorem Addressed.repeats (h : Addressed address t db row)
    (hvalid : call.valid address.name row.kind = true) {response : IdempotentResponse}
    (hrecord : db.idempotency.get? (address.record call) =
      some ⟨call.digest, .target, some response⟩)
    (hresource : response.resourceId = t) (hstatus : response.status = 200) :
    ∃ result, address.serial call db = .ok ((result, true), db) := by
  obtain ⟨n, hlock⟩ := h.lock
  obtain ⟨g, generation, hcurrent⟩ := h.cataloged.current t row h.stored
  obtain ⟨namespaceName, hnamespace⟩ := h.cataloged.housed t row h.stored
  have hreserve := reserveIdempotency_completed h.operation_fits hstatus hrecord
  have hget := getTargetById_of h.stored h.owner hnamespace hcurrent.selected hcurrent.stored
  rw [serial_eq hvalid hlock hreserve, hresource]
  exact ⟨_, (bind_ok_iff _ _ _).mpr ⟨_, hget, rfl⟩⟩

section NotFound

theorem validateSortedSet_found (field : String) (values : List String)
    (allowed : Option (List String)) (required : Bool) :
    validateSortedSet field values allowed required ≠ .error .notFound := by
  have hvalues : ∀ previous, validateSortedValues field allowed previous values ≠
      .error .notFound := by
    induction values with
    | nil => exact fun _ h => (by cases h)
    | cons value rest ih =>
        intro previous
        simp [validateSortedValues, bind_error_iff, ensure_error_iff, ih]
  simp [validateSortedSet, bind_error_iff, ensure_error_iff, hvalues]

theorem validateArtifactStores_found (previous : Option String) (stores : List ArtifactStore) :
    validateArtifactStores previous stores ≠ .error .notFound := by
  induction stores generalizing previous with
  | nil => exact fun h => (by cases h)
  | cons store rest ih => simp [validateArtifactStores, bind_error_iff, ensure_error_iff, ih]

theorem validatePartitions_found (seen : List String) (partitions : List PartitionSpec) :
    validatePartitions seen partitions ≠ .error .notFound := by
  induction partitions generalizing seen with
  | nil => exact fun h => (by cases h)
  | cons partition rest ih => simp [validatePartitions, bind_error_iff, ensure_error_iff, ih]

theorem validateTargetGenerationChange_found (change : TargetGenerationChange) :
    validateTargetGenerationChange change ≠ .error .notFound := by
  have hprovider : validateTargetProvider change.spec ≠ .error .notFound := by
    unfold validateTargetProvider
    split <;> simp [ensure_error_iff]
  simp [validateTargetGenerationChange, validateTargetSpec, bind_error_iff, ensure_error_iff,
    hprovider, validateSortedSet_found, validateArtifactStores_found, validatePartitions_found]

theorem insertTargetGeneration_found (db : Db) (namespaceId targetId : Id) (generation : Nat)
    (draw : TargetDraw) (spec : TargetSpec) :
    insertTargetGeneration db namespaceId targetId generation draw spec ≠ .error .notFound := by
  have hpartitions : ∀ (l : List (Id × PartitionSpec)) (db : Db),
      l.foldlM (insertPartition draw.generationId) db ≠ .error .notFound := by
    intro l
    induction l with
    | nil => exact fun _ h => (by cases h)
    | cons entry rest ih =>
        intro db
        simp [List.foldlM_cons, insertPartition, bind_error_iff, ensure_error_iff, need_error_iff,
          ih]
  simp [insertTargetGeneration, checkGenerationRow, bind_error_iff, ensure_error_iff,
    need_error_iff, hpartitions]

theorem reserveIdempotency_found (db : Db) (authorization : Authorization)
    (operation : IdempotentOperation) (resourceType : ResourceType) (key digest : String)
    (status : Nat) :
    reserveIdempotency db authorization operation resourceType key digest status ≠
      .error .notFound := by
  intro h
  simp only [reserveIdempotency, bind_error_iff, ensure_error_iff] at h
  obtain ⟨-, h⟩ | ⟨_, -, h⟩ := h
  · cases h
  · split at h
    · cases h
    · simp [-bind_pure_comp, bind_error_iff, ensure_error_iff, need_error_iff, pure_error_iff] at h

theorem getTargetById_found (db : Db) (namespaceId targetId : Id) :
    getTargetById db namespaceId targetId ≠ .error .notFound := by
  simp [-bind_pure_comp, getTargetById, bind_error_iff, ensure_error_iff, need_error_iff,
    pure_error_iff]

theorem selectTargetGeneration_found (env : Env) (authorization : Authorization)
    (key digest : String) (draw : TargetDraw) (name : String) (locked : LockedTarget)
    (spec : TargetSpec) (db : Db) :
    selectTargetGeneration env authorization key digest draw name locked spec db ≠
      .error .notFound := by
  simp [-bind_pure_comp, selectTargetGeneration, completeIdempotency, Db.insertOutbox,
    bind_error_iff, ensure_error_iff, need_error_iff, pure_error_iff, insertTargetGeneration_found]

/-- A request whose lock statement returned a row is never told that the target does not
exist. -/
theorem Addressed.found (h : Addressed address t db row) :
    address.serial call db ≠ .error .notFound := by
  obtain ⟨n, hlock⟩ := h.lock
  intro herror
  simp only [TargetAddress.serial, createTargetGeneration, bind_error_iff, ensure_error_iff,
    need_error_iff, Except.ok.injEq] at herror
  obtain ⟨-, h⟩ | ⟨_, -, h | ⟨_, -, h | ⟨_, rfl, ⟨h, -⟩ | ⟨locked, -, h⟩⟩⟩⟩ := herror
  · cases h
  · exact validateTargetGenerationChange_found _ h
  · cases h
  · cases hlock.symm.trans h
  · obtain h | ⟨⟨replayed, db₁⟩, -, h⟩ := h
    · exact reserveIdempotency_found _ _ _ _ _ _ _ h
    · cases replayed with
      | some targetId =>
          simp [-bind_pure_comp, bind_error_iff, getTargetById_found, pure_error_iff] at h
      | none =>
          simp [-bind_pure_comp, bind_error_iff, ensure_error_iff, selectTargetGeneration_found,
            getTargetById_found, pure_error_iff] at h

end NotFound

end Answers

/-! Whole runs. -/

section Runs

open Revisions

def Rolled.outcome (rolled : Rolled) : Revisions.Outcome :=
  match rolled.answer with
  | .ok (_, false) => .committed
  | .ok (_, true) => .replayed
  | .error .conflict => .refused
  | .error _ => .other

def TargetAddress.entry (address : TargetAddress) (kind : TargetKind) (rolled : Rolled) :
    Entry IdempotencyKey String :=
  ⟨address.record rolled.call, rolled.call.digest, rolled.call.change.expectedRevision,
    rolled.call.valid address.name kind, rolled.outcome⟩

def TargetAddress.history (address : TargetAddress) (kind : TargetKind) (state : RollState) :
    History IdempotencyKey String := state.finished.map (address.entry kind)

def TargetAddress.answered (address : TargetAddress) (call : RollCall) (db : Db) : Rolled :=
  ⟨call, (address.serial call db).map Prod.fst⟩

variable {address : TargetAddress} {t : Id} {origin row : TargetRow} {db : Db} {call : RollCall}
  {used : IdempotencyKey → Prop}

structure Advances (address : TargetAddress) (t : Id) (call : RollCall) (row : TargetRow)
    (db db' : Db) : Prop where
  expected : call.change.expectedRevision = row.revision
  target : ∃ row', Addressed address t db' row' ∧ row'.kind = row.kind ∧
    row'.revision = row.revision + 1
  free : db.idempotency.get? (address.record call) = none
  records : ∃ now, ∀ k, db'.idempotency.get? k = if k = address.record call then
    some ⟨call.digest, .target, some ⟨t, 200, now⟩⟩ else db.idempotency.get? k
  generations : ∀ g generation, db.generations.get? g = some generation →
    db'.generations.get? g = some generation

theorem Addressed.answered (h : Addressed address t db row) (call : RollCall) :
    ((address.answered call db).outcome ≠ .committed ∧
        atomically (address.serial call) db = db) ∨
      ((address.answered call db).outcome = .committed ∧
        Advances address t call row db (atomically (address.serial call) db)) := by
  cases hserial : address.serial call db with
  | error e =>
      simp only [TargetAddress.answered, Rolled.outcome, atomically, hserial, Except.map]
      exact Or.inl ⟨by cases e <;> simp, trivial⟩
  | ok result =>
      obtain ⟨⟨target, replayed⟩, db'⟩ := result
      obtain ⟨n, hlock⟩ := h.lock
      obtain ⟨_, locked, hgranted, hlocked, -,
        ⟨rfl, rfl, -⟩ | ⟨rfl, hfree, hid, generations, hselecting⟩⟩ :=
        createTargetGeneration_ok hserial
      · simp [TargetAddress.answered, Rolled.outcome, atomically, hserial, Except.map]
      · cases hgranted
        cases hlock.symm.trans hlocked
        simp only [TargetAddress.answered, Rolled.outcome, atomically, hserial, Except.map]
        refine Or.inr ⟨trivial, hselecting.revision.symm,
          ⟨row.selectGeneration call.env call.draw.generationId,
            ⟨h.cataloged.step (.selected hlock hselecting), ?_, h.owner, h.name, h.serving,
              h.short⟩, rfl, rfl⟩, hfree, ?_, ?_⟩
        · rw [hselecting.targets, if_pos rfl, h.stored, Option.map_some]
          exact congrArg some (if_pos h.owner)
        · refine ⟨call.env.now, fun k => ?_⟩
          have hrecords := createTargetGeneration_records hserial k
          rw [hid] at hrecords
          exact hrecords
        · intro g generation hg
          obtain ⟨_, _, _, _, _, rfl⟩ := hselecting.rest
          exact Table.insert?_keeps hselecting.generation hg

/-- What holds of the committed state when the target had the row `origin` at the start. -/
structure Rolls (address : TargetAddress) (t : Id) (origin : TargetRow)
    (used : IdempotencyKey → Prop) (state : RollState) : Prop where
  target : ∃ row, Addressed address t state.db row ∧ row.kind = origin.kind ∧
    row.revision = revision origin.revision (address.history origin.kind state)
  recorded : ∀ e ∈ address.history origin.kind state, e.commits = true →
    ∃ response, state.db.idempotency.get? e.record = some ⟨e.digest, .target, some response⟩ ∧
      response.resourceId = t ∧ response.status = 200
  unrecorded : ∀ k, Unused used (address.history origin.kind state) k →
    state.db.idempotency.get? k = none
  legal : Legal used origin.revision (address.history origin.kind state)
  found : ∀ rolled ∈ state.finished, rolled.answer ≠ .error .notFound

variable {state : RollState}

theorem entry_commits_iff (address : TargetAddress) (kind : TargetKind) (rolled : Rolled) :
    (address.entry kind rolled).commits = true ↔ rolled.outcome = .committed :=
  decide_eq_true_iff

theorem Rolls.fits (h : Rolls address t origin used state)
    (hfresh : call.draw.Fresh call.change.spec state.db) :
    Fits used origin.revision (address.history origin.kind state)
      (address.entry origin.kind (address.answered call state.db)) := by
  obtain ⟨row, haddressed, hkind, hrevision⟩ := h.target
  refine ⟨fun hcommits => ?_, fun hvalid hunused hexpected => ?_,
    fun hvalid hunused hexpected => ?_, fun hvalid hrepeated => ?_⟩
  · rw [entry_commits_iff] at hcommits
    obtain ⟨hnot, -⟩ | ⟨-, hadvances⟩ := haddressed.answered call
    · exact absurd hcommits hnot
    · rw [← hrevision]
      exact hadvances.expected
  · obtain ⟨result, db', hserial⟩ : ∃ result db',
        address.serial call state.db = .ok ((result, false), db') :=
      haddressed.wins (hkind ▸ hvalid) (h.unrecorded _ hunused) (hrevision ▸ hexpected) hfresh
    rw [entry_commits_iff, TargetAddress.answered, hserial]
    rfl
  · have hserial : address.serial call state.db = .error .conflict :=
      haddressed.loses (hkind ▸ hvalid) (h.unrecorded _ hunused) (hrevision ▸ hexpected)
    rw [TargetAddress.answered, hserial]
    rfl
  · obtain ⟨e, he, hcommits, hrecord, hdigest⟩ := hrepeated
    obtain ⟨response, hget, hresource, hstatus⟩ := h.recorded e he hcommits
    rw [hrecord, hdigest] at hget
    obtain ⟨result, hserial⟩ : ∃ result,
        address.serial call state.db = .ok ((result, true), state.db) :=
      haddressed.repeats (hkind ▸ hvalid) hget hresource hstatus
    rw [TargetAddress.answered, hserial]
    rfl

theorem Addressed.answer_found (h : Addressed address t db row) (call : RollCall) :
    (address.answered call db).answer ≠ .error .notFound := by
  cases hserial : address.serial call db with
  | error e =>
      simp only [TargetAddress.answered, hserial, Except.map, ne_eq, Except.error.injEq]
      rintro rfl
      exact h.found hserial
  | ok result => simp [TargetAddress.answered, hserial, Except.map]

theorem Rolls.finish (h : Rolls address t origin used state)
    (hfresh : call.draw.Fresh call.change.spec state.db) :
    Rolls address t origin used ⟨atomically (address.serial call) state.db,
      address.answered call state.db :: state.finished⟩ := by
  have hfits := h.fits hfresh
  obtain ⟨row, haddressed, hkind, hrevision⟩ := h.target
  have hcommits := entry_commits_iff address origin.kind (address.answered call state.db)
  have hcons : ∀ db', address.history origin.kind
      ⟨db', address.answered call state.db :: state.finished⟩ =
        address.entry origin.kind (address.answered call state.db) ::
          address.history origin.kind state := fun _ => rfl
  have hfound : ∀ rolled ∈ address.answered call state.db :: state.finished,
      rolled.answer ≠ .error .notFound := by
    intro rolled hrolled
    obtain rfl | hrolled := List.mem_cons.mp hrolled
    · exact haddressed.answer_found call
    · exact h.found rolled hrolled
  obtain ⟨hnot, hsame⟩ | ⟨hyes, hadvances⟩ := haddressed.answered call
  · rw [hsame]
    have hquiet := fun hc => hnot (hcommits.mp hc)
    refine ⟨⟨row, haddressed, hkind, ?_⟩, ?_, ?_, ⟨h.legal, hfits⟩, hfound⟩
    · rw [hcons, revision_cons, if_neg hquiet, hrevision]
      rfl
    · intro e he hc
      obtain rfl | he := List.mem_cons.mp he
      · exact absurd hc hquiet
      · exact h.recorded e he hc
    · rintro k ⟨hused, hfree⟩
      exact h.unrecorded k ⟨hused, fun e he => hfree e (List.mem_cons_of_mem _ he)⟩
  · obtain ⟨row', haddressed', hkind', hrevision'⟩ := hadvances.target
    obtain ⟨now, hrecords⟩ := hadvances.records
    refine ⟨⟨row', haddressed', hkind'.trans hkind, ?_⟩, ?_, ?_, ⟨h.legal, hfits⟩, hfound⟩
    · rw [hcons, revision_cons, if_pos (hcommits.mpr hyes), hrevision', hrevision]
    · intro e he hc
      dsimp only
      rw [hrecords]
      obtain rfl | he := List.mem_cons.mp he
      · exact ⟨⟨t, 200, now⟩, if_pos rfl, rfl, rfl⟩
      · obtain ⟨response, hget, hrest⟩ := h.recorded e he hc
        refine ⟨response, ?_, hrest⟩
        rw [if_neg, hget]
        intro hrecord
        rw [hrecord, hadvances.free] at hget
        cases hget
    · rintro k ⟨hused, hfree⟩
      dsimp only
      rw [hrecords, if_neg]
      · exact h.unrecorded k ⟨hused, fun e he => hfree e (List.mem_cons_of_mem _ he)⟩
      · exact fun hk => hfree _ List.mem_cons_self (hcommits.mpr hyes) hk.symm

/-- What a session knows: it waits with a row of the target joined with a stored generation,
or it holds the target and the current row. -/
def Knows (address : TargetAddress) (t : Id) (state : RollState) (s : Session Roller Id) : Prop :=
  match s.state.stage with
  | .starting => True
  | .waiting seen => ∃ locked g generation, seen = some locked ∧ locked.targetId = t ∧
      locked.row.currentGenerationId = some g ∧ state.db.generations.get? g = some generation ∧
      locked.currentGeneration = generation.generation
  | .locked row => row = lockTargetGeneration state.db address.namespaceId address.name ∧
      t ∈ s.held

def rollAllowed (w : RollWorld) (a : Action RollCall Empty) : Bool :=
  generationStands w a && drawsFresh w a

/-- The lock statement of a request that did not lose its generation returns the current
row. -/
theorem recheck_eq_lock (h : Addressed address t db row) {locked : LockedTarget} {g : Id}
    {generation : GenerationRow} (htarget : locked.targetId = t)
    (hselected : locked.row.currentGenerationId = some g)
    (hstored : db.generations.get? g = some generation)
    (hnumber : locked.currentGeneration = generation.generation)
    (hstands : row.currentGenerationId = locked.row.currentGenerationId) :
    address.recheck db locked = lockTargetGeneration db address.namespaceId address.name := by
  have hcurrent := hstands.trans hselected
  have hnamed := h.cataloged.targetNamed h.stored
  rw [h.owner, h.name] at hnamed
  simp [TargetAddress.recheck, lockTargetGeneration, hnamed, htarget, h.stored, h.owner, h.name,
    hstands, hselected, hstored, hnumber]

theorem rolling_maintains : address.rolling.Maintains (fun w a => rollAllowed w a = true)
    (Rolls address t origin used) (Knows address t) where
  start _ _ _ := trivial
  advance w i s hw hallowed hs := by
    obtain ⟨row, haddressed, -⟩ := hw.committed.target
    have hknows := hw.sessions i s hs
    obtain ⟨⟨call, stage⟩, held⟩ := s
    cases stage with
    | starting =>
        obtain ⟨n, hlock⟩ := haddressed.lock
        obtain ⟨-, -, g, generation, hselected, hstored, hnumber⟩ := lockTargetGeneration_some hlock
        exact ⟨_, g, generation, hlock, rfl, hselected, hstored, hnumber⟩
    | waiting seen =>
        obtain ⟨locked, g, generation, rfl, htarget, hselected, hstored, hnumber⟩ := hknows
        have hstands := (Bool.and_eq_true_iff.mp hallowed).1
        simp only [generationStands, hs, Option.map_some, htarget, haddressed.stored,
          Option.any_some, decide_eq_true_eq] at hstands
        refine ⟨?_, List.mem_append_right _ ?_⟩
        · exact recheck_eq_lock haddressed htarget hselected hstored hnumber hstands
        · exact htarget ▸ List.mem_singleton_self _
    | locked locked => exact ⟨hknows.1, List.mem_append_left _ hknows.2⟩
  call _ c := by cases c
  frame_call _ c := by cases c
  commit w i s new hw hallowed hs hcommit := by
    have hknows := hw.sessions i s hs
    have hfresh := (Bool.and_eq_true_iff.mp hallowed).2
    simp only [drawsFresh, hs, Option.all_some, decide_eq_true_eq] at hfresh
    obtain ⟨⟨call, stage⟩, held⟩ := s
    cases stage with
    | starting | waiting => cases hcommit
    | locked locked =>
        cases hcommit
        have hanswer : ∀ db', db' = w.committed.db →
            address.answer call locked db' = address.serial call db' := by
          rintro _ rfl
          exact answer_eq_serial hknows.1.symm
        rw [hanswer _ rfl, atomically, hanswer _ rfl]
        exact hw.committed.finish hfresh
  frame_commit w i s new other hw hallowed hs hcommit hother hsame hapart := by
    have hknows := hw.sessions i s hs
    obtain ⟨row, haddressed, -⟩ := hw.committed.target
    obtain ⟨⟨call, stage⟩, held⟩ := s
    cases stage with
    | starting | waiting => cases hcommit
    | locked locked =>
        cases hcommit
        obtain ⟨⟨other, stage'⟩, held'⟩ := other
        cases stage' with
        | starting => trivial
        | locked => exact absurd hknows.2 (hapart t hother.2)
        | waiting seen =>
            obtain ⟨locked', g, generation, hseen, htarget, hselected, hstored, hnumber⟩ := hother
            refine ⟨locked', g, generation, hseen, htarget, hselected, ?_, hnumber⟩
            have hanswer : address.answer call locked w.committed.db =
                address.serial call w.committed.db := answer_eq_serial hknows.1.symm
            dsimp only
            rw [atomically, hanswer]
            obtain ⟨-, hnone⟩ | ⟨-, hadvances⟩ := haddressed.answered call
            · rw [atomically] at hnone
              rw [hnone]
              exact hstored
            · exact hadvances.generations g generation hstored

/-- What a run has made of the target. -/
structure RolledOver (address : TargetAddress) (t : Id) (origin : TargetRow)
    (used : IdempotencyKey → Prop) (state : RollState) : Prop where
  /-- The generations are numbered from one up to the current one, and the revision has been
  raised by one for each request that was carried out. -/
  dense : ∃ row g generation, state.db.targets.get? t = some row ∧
    CurrentGeneration state.db t row g generation ∧
    row.revision = origin.revision +
      state.finished.countP fun rolled => rolled.outcome = .committed
  /-- Of the valid requests that name one revision, each under a new key of its own, one is
  carried out and the others meet a conflict. -/
  rivals : ∀ r : Nat, r = origin.revision ∨ (origin.revision ≤ r ∧
      r < revision origin.revision (address.history origin.kind state)) →
    (∀ e ∈ address.history origin.kind state, e.expected = r → e.valid = true ∧
      ¬used e.record ∧ (address.history origin.kind state).countP
        (fun e' => e'.record = e.record) = 1) →
    (∃ e ∈ address.history origin.kind state, e.expected = r) →
    commitsAt r (address.history origin.kind state) = 1 ∧
      ∀ e ∈ address.history origin.kind state, e.expected = r →
        e.commits = true ∨ e.outcome = .refused
  /-- Of identical valid requests under one new key, answered once the revision they name was
  reached, one is carried out and the others are answered as repetitions. -/
  twins : ∀ (r : Nat) k digest, origin.revision ≤ r → ¬used k →
    (∀ e ∈ address.history origin.kind state, e.expected = r ∨ e.record = k →
      e.valid = true ∧ e.expected = r ∧ e.record = k ∧ e.digest = digest) →
    (∀ after e before, address.history origin.kind state = after ++ e :: before →
      e.record = k → r ≤ revision origin.revision before) →
    (∃ e ∈ address.history origin.kind state, e.record = k) →
    commitsAt r (address.history origin.kind state) = 1 ∧
      ∀ e ∈ address.history origin.kind state, e.record = k →
        e.commits = true ∨ e.outcome = .replayed
  found : ∀ rolled ∈ state.finished, rolled.answer ≠ .error .notFound

theorem Rolls.rolledOver (h : Rolls address t origin used state) :
    RolledOver address t origin used state := by
  refine ⟨?_, fun r => h.legal.rivals, fun r k digest hr => h.legal.twins hr, h.found⟩
  obtain ⟨row, haddressed, -, hrevision⟩ := h.target
  obtain ⟨g, generation, hcurrent⟩ := haddressed.cataloged.current t row haddressed.stored
  refine ⟨row, g, generation, haddressed.stored, hcurrent, ?_⟩
  rw [hrevision, revision, TargetAddress.history, List.countP_map]
  rfl

def UsedIn (db : Db) (k : IdempotencyKey) : Prop := ∃ row, db.idempotency.get? k = some row

/-- Requests for new generations of a target whose name leaves room for the operation are
answered one after another, as long as none gets the lock after the generation it was
joined with has been replaced. -/
theorem generation_requests_serialize {platform : Platform} {db₀ : Db}
    (harises : Service.Arises platform db₀) (hrow : db₀.targets.get? t = some origin)
    (hserving : origin.state ≠ .retired) (hshort : origin.name.length ≤ 101) {w : RollWorld}
    (h : Transition.Reaches (TargetAddress.rolling ⟨origin.namespaceId, origin.name⟩).Step
      (fun w a => rollAllowed w a = true) ⟨⟨db₀, []⟩, .empty⟩ w) :
    RolledOver ⟨origin.namespaceId, origin.name⟩ t origin (UsedIn db₀) w.committed := by
  have hstart : Rolls ⟨origin.namespaceId, origin.name⟩ t origin (UsedIn db₀) ⟨db₀, []⟩ := by
    refine ⟨⟨origin, ⟨harises.cataloged, hrow, rfl, rfl, hserving, hshort⟩, rfl, rfl⟩, ?_, ?_,
      trivial, ?_⟩
    · exact fun _ he => by cases he
    · rintro k ⟨hunused, -⟩
      exact Option.eq_none_iff_forall_not_mem.mpr fun row hget => hunused ⟨row, hget⟩
    · exact fun _ hrolled => by cases hrolled
  exact (rolling_maintains.holds (Protocol.holds_quiet hstart) h).committed.rolledOver

end Runs

namespace Sample

def rollCall (n : Nat) (key : String) (revision : Nat) : RollCall :=
  ⟨env n, 2, key, "request", targetDraw n, ⟨revision, hostSpec "cluster"⟩⟩

def quietRolls : RollWorld := ⟨⟨targeted, []⟩, .empty⟩

/-- Two requests for the second generation under keys of their own, and two identical ones
for the third, of which the first waits for the lock of the request that is refused. -/
def fourRolls : List (Action RollCall Empty) :=
  [.start 1 (rollCall 2 "first" 1), .start 2 (rollCall 3 "rival" 1),
    .start 3 (rollCall 4 "second" 2), .start 4 (rollCall 5 "second" 2),
    .advance 1, .advance 1, .commit 1, .advance 2, .advance 2, .advance 3, .commit 2,
    .advance 3, .commit 3, .advance 4, .advance 4, .commit 4]

/-- The second request begins its lock statement while the first holds the target. -/
def overlappingRolls : List (Action RollCall Empty) :=
  [.start 1 (rollCall 2 "roll-target" 1), .start 2 (rollCall 3 "roll-target" 1), .advance 1,
    .advance 2, .advance 1, .commit 1, .advance 2, .commit 2]

def missed (rolled : Rolled) : Bool :=
  match rolled.answer with
  | .error .notFound => true
  | _ => false

end Sample

/-- Four interleaved requests roll the target twice. -/
theorem generation_requests_serialize_four : ∃ w : RollWorld,
    (w.committed.db.targets.get? 10).map TargetRow.revision = some 3 ∧
      w.committed.finished.map (fun rolled => (rolled.call.key, rolled.outcome)) =
        [("second", .replayed), ("second", .committed), ("rival", .refused),
          ("first", .committed)] ∧
      RolledOver ⟨1, "cluster"⟩ 10 Sample.cluster (UsedIn Sample.targeted) w.committed := by
  have hrun : (Transition.exec (fun w a => if rollAllowed w a then
      (TargetAddress.rolling ⟨1, "cluster"⟩).next w a else none) Sample.quietRolls
      Sample.fourRolls).map (fun w => ((w.committed.db.targets.get? 10).map TargetRow.revision,
        w.committed.finished.map fun rolled => (rolled.call.key, rolled.outcome))) =
      some (some 3, [("second", .replayed), ("second", .committed), ("rival", .refused),
        ("first", .committed)]) := by
    decide +kernel
  obtain ⟨w, hw, hfacts⟩ := Option.map_eq_some_iff.mp hrun
  obtain ⟨hrevision, hanswers⟩ := Prod.mk.inj hfacts
  exact ⟨w, hrevision, hanswers, generation_requests_serialize Sample.targeted_arises
    Sample.targeted_cluster (by decide) (by decide) (Transition.reaches_of_exec hw)⟩

/-- Of two identical requests, the one that waited is told that the target does not exist. -/
theorem waiting_roll_not_found : Service.Arises Sample.platform Sample.targeted ∧
    Sample.targeted.targets.get? 10 = some Sample.cluster ∧
    ∃ w : RollWorld, Transition.Reachable (TargetAddress.rolling ⟨1, "cluster"⟩).Step
      Sample.quietRolls w ∧
      (w.committed.db.targets.get? 10).map TargetRow.revision = some 2 ∧
      ∃ rolled ∈ w.committed.finished, rolled.answer = .error .notFound := by
  have hrun : ((Transition.exec (TargetAddress.rolling ⟨1, "cluster"⟩).next Sample.quietRolls
      Sample.overlappingRolls).map fun w =>
        ((w.committed.db.targets.get? 10).map TargetRow.revision,
          w.committed.finished.any Sample.missed)) = some (some 2, true) := by
    decide
  obtain ⟨w, hw, hfacts⟩ := Option.map_eq_some_iff.mp hrun
  obtain ⟨hrevision, hany⟩ := Prod.mk.inj hfacts
  obtain ⟨rolled, hrolled, hmissed⟩ := List.any_eq_true.mp hany
  refine ⟨Sample.targeted_arises, Sample.targeted_cluster, w, Transition.reachable_of_exec hw,
    hrevision, rolled, hrolled, ?_⟩
  unfold Sample.missed at hmissed
  split at hmissed
  · assumption
  · cases hmissed

end JobmanControl
