import JobmanControl.Catalog.Targets

/-!
When a target can be rolled to a new generation. The checks and constraints of a
generation all follow from those of its specification and from the consistency of the
catalog, up to one: the name of the target is part of the operation that is recorded
with the idempotency key, and that column holds 128 characters.
-/

namespace JobmanControl

open Relational

variable {granted : Authorization} {key : String} {draw : TargetDraw}
  {change : TargetGenerationChange}

variable {platform : Platform} {env : Env} {db db' : Db}

variable {t : Id} {row : TargetRow}

theorem Db.Cataloged.targetNamed (h : db.Cataloged) (hrow : db.targets.get? t = some row) :
    targetNamed db row.namespaceId row.name = some (t, row) := by
  rw [JobmanControl.targetNamed, Table.select_eq_singleton _ _ hrow (by simp)]
  · rfl
  · intro t' row' hrow' hp
    rw [Bool.and_eq_true, decide_eq_true_eq, decide_eq_true_eq] at hp
    exact h.named t' t row' row hrow' hrow hp.1 hp.2

/-- A valid request for a new generation of a target: its specification is of the same name
and kind, it names the current revision, and its key and identities are new. -/
structure RollRequest (db : Db) (granted : Authorization) (row : TargetRow) (key : String)
    (draw : TargetDraw) (change : TargetGenerationChange) : Prop where
  owner : granted.namespaceId = row.namespaceId
  valid : validateTargetGenerationChange change = .ok ()
  name : change.spec.name = row.name
  kind : change.spec.kind = row.kind
  revision : change.expectedRevision = row.revision
  keyValid : validIdempotencyKey key = true
  keyFree : db.idempotency.get? (granted.record (.targetsGenerationsCreate row.name) key) = none
  fresh : draw.Fresh change.spec db

theorem operationText_length (name : String) :
    (IdempotentOperation.targetsGenerationsCreate name).text.length = 27 + name.length := by
  change ("targets.generations.create" ++ ":" ++ name).length = _
  rw [String.length_append, String.length_append]
  congr 1

/-- The statements of a new generation go through in a consistent catalog. -/
theorem Db.Cataloged.selectTargetGeneration (h : db.Cataloged) (hrow : db.targets.get? t = some row)
    (digest : String) {spec : TargetSpec} {g : Id} {generation : GenerationRow}
    (hcurrent : CurrentGeneration db t row g generation)
    (howner : granted.namespaceId = row.namespaceId) (hspec : spec.Storable)
    (hfresh : draw.Fresh spec db) {records : Table IdempotencyKey IdempotencyRow}
    (hcomplete : ∀ db₁ : Db, db₁.idempotency = records → ∃ records',
      completeIdempotency env db₁ granted (.targetsGenerationsCreate row.name) key t 200 =
        .ok { db₁ with idempotency := records' }) :
    ∃ db', JobmanControl.selectTargetGeneration env granted key digest draw row.name
        ⟨t, row, generation.generation⟩ spec { db with idempotency := records } = .ok db' ∧
      db'.targets.get? t = some (row.selectGeneration env draw.generationId) ∧
      (∃ new, db'.generations.get? draw.generationId = some new) ∧
      db'.namespaces = db.namespaces := by
  -- the next number is free, and so are the partitions of a generation that is not stored
  have hnumber : ∀ g' other, db.generations.get? g' = some other → other.targetId = t →
      other.generation ≠ generation.generation + 1 := by
    intro g' other hother ht hn
    have := (hcurrent.numbered _).mp ⟨g', other, hother, ht, hn⟩
    lia
  have hparted : ∀ p partition, db.partitions.get? p = some partition →
      partition.targetGenerationId ≠ draw.generationId := by
    intro p partition hp hg
    obtain ⟨other, hother⟩ := h.parted p partition hp
    rw [hg, hfresh.generation] at hother
    cases hother
  have hfresh' : draw.Fresh spec { db with idempotency := records } := { hfresh with }
  obtain ⟨db₁, hinsert⟩ :=
    insertTargetGeneration_fresh granted.namespaceId hspec hfresh' hnumber hparted
  obtain ⟨generations, partitions, hgenerations, -, rfl⟩ := insertTargetGeneration_ok hinsert
  obtain ⟨records', hcompleted⟩ := hcomplete
    { db with
      targets := db.targets.modify t fun target =>
        if target.namespaceId = granted.namespaceId then
          target.selectGeneration env draw.generationId
        else target
      generations := generations, partitions := partitions, idempotency := records } rfl
  obtain ⟨outbox, houtbox⟩ := Table.insert?_isSome db.outbox draw.outboxId
    ⟨granted.namespaceId,
      .targetGenerationCreated t draw.generationId (generation.generation + 1), env.now, none⟩
    hfresh.outbox
  refine ⟨_, (bind_ok_iff _ _ _).mpr ⟨_, hinsert, (bind_ok_iff _ _ _).mpr ⟨_, hcompleted,
    (bind_ok_iff _ _ _).mpr ⟨outbox, need_of_eq_some houtbox _, rfl⟩⟩⟩, ?_,
    ⟨newGenerationRow granted.namespaceId t (generation.generation + 1) spec, ?_⟩, rfl⟩
  · simp only [Db.appendAudit]
    rw [Table.get?_modify, if_pos rfl, hrow, Option.map_some, if_pos howner.symm]
  · simp only [Db.appendAudit]
    rw [Table.get?_insert hgenerations, if_pos rfl]

/-- A request is answered with the new generation exactly if the operation it records fits
its column. -/
theorem Db.Cataloged.createTargetGeneration_iff (h : db.Cataloged) (env : Env)
    (hrow : db.targets.get? t = some row) (hserving : row.state ≠ .retired) (digest : String)
    (hrequest : RollRequest db granted row key draw change) :
    (∃ result db', createTargetGeneration lockTargetGeneration env (.ok granted) row.name key digest
        draw change db = .ok ((result, false), db') ∧ result.generationId = draw.generationId ∧
        (db'.targets.get? t).bind (·.currentGenerationId) = some draw.generationId) ↔
      row.name.length ≤ 101 := by
  constructor
  · rintro ⟨result, db', hok, -⟩
    obtain ⟨_, locked, -, -, hlength, -⟩ := createTargetGeneration_ok hok
    rw [operationText_length] at hlength
    lia
  · intro hlength
    obtain ⟨g, generation, hcurrent⟩ := h.current t row hrow
    obtain ⟨namespaceName, hnamespace⟩ := h.housed t row hrow
    have hvalid := hrequest.valid
    simp only [validateTargetGenerationChange, bind_ok_iff] at hvalid
    obtain ⟨_, -, hspec⟩ := hvalid
    have hstorable := validateTargetSpec_storable hspec
    have hname : validName row.name = true := hrequest.name ▸ hstorable.name
    have hlock : lockTargetGeneration db granted.namespaceId row.name =
        some ⟨t, row, generation.generation⟩ := by
      rw [lockTargetGeneration, hrequest.owner, h.targetNamed hrow]
      simp [hcurrent.selected, hcurrent.stored]
    obtain ⟨records, hreserve, hcomplete⟩ := reserve_complete_fresh env t .target digest 200
      (by rw [operationText_length]; lia) hrequest.keyFree
    obtain ⟨db', hselect, htarget, ⟨new, hnew⟩, hnamespaces⟩ := h.selectTargetGeneration
      hrow digest hcurrent hrequest.owner hstorable hrequest.fresh hcomplete
    refine ⟨⟨t, row.selectGeneration env draw.generationId, draw.generationId, new, namespaceName,
      loadPartitions db' draw.generationId⟩, db', ?_, rfl, by rw [htarget]; rfl⟩
    have hget : getTargetById db' granted.namespaceId t = .ok ⟨t,
        row.selectGeneration env draw.generationId, draw.generationId, new, namespaceName,
        loadPartitions db' draw.generationId⟩ :=
      getTargetById_of htarget hrequest.owner.symm (hnamespaces ▸ hnamespace) rfl hnew
    rw [createTargetGeneration,
      ensure_of_true (by simp [hrequest.keyValid, hname, hrequest.name]), ok_bind, hrequest.valid,
      ok_bind]
    simp only [ok_bind, need_of_eq_some hlock, hreserve]
    rw [ensure_of_true (by simp [hserving, hrequest.revision, hrequest.kind]), ok_bind, hselect,
      ok_bind, hget, ok_bind]
    rfl

/-- A target that was created can later, unless it is retired, be rolled to any valid
generation exactly if its name has at most 101 characters. -/
theorem generation_succeeds_iff (env : Env) {db₀ db₁ : Db} (harises : Service.Arises platform db₀)
    {env₀ : Env} {authorization : Except StoreError Authorization} {key₀ digest₀ : String}
    {draw₀ : TargetDraw} {spec : TargetSpec} {target : Target}
    (hcreate : createTarget env₀ authorization key₀ digest₀ draw₀ spec db₀ =
      .ok ((target, false), db₁)) (hlater : Service.Later platform db₁ db) {row : TargetRow}
    (hrow : db.targets.get? target.id = some row) (hserving : row.state ≠ .retired)
    (digest : String) (hrequest : RollRequest db granted row key draw change) :
    row.name = spec.name ∧ row.kind = spec.kind ∧
      ((∃ result db', createTargetGeneration lockTargetGeneration env (.ok granted) spec.name key
          digest draw change db = .ok ((result, false), db') ∧
          result.generationId = draw.generationId ∧
          (db'.targets.get? target.id).bind (·.currentGenerationId) = some draw.generationId) ↔
        spec.name.length ≤ 101) := by
  have hstep : (ServiceCall.mk env₀ (.createTarget authorization key₀ digest₀ draw₀ spec)).apply
      platform db₀ = db₁ := by
    simp only [ServiceCall.apply, atomically, hcreate]
  have hcataloged : db.Cataloged := Service.Arises.cataloged
    ((Transition.Reaches.tail _ harises trivial hstep).trans hlater)
  obtain ⟨hfalse, -⟩ | ⟨_, generations, createdAt, hcreating⟩ := createTarget_ok hcreate
  · cases hfalse
  · obtain ⟨row', hrow', hfollows⟩ := hlater.target_follows
      (hcreating.targets draw₀.targetId ▸ if_pos rfl)
    rw [createTarget_id hcreate] at hrow ⊢
    cases hrow'.symm.trans hrow
    have hname : row.name = spec.name := hfollows.name
    refine ⟨hname, hfollows.kind, ?_⟩
    rw [← hname]
    exact hcataloged.createTargetGeneration_iff env hrow hserving digest hrequest

namespace Sample

def longName : String := String.ofList (List.replicate 102 'a')

theorem longName_length : longName.length = 102 := by
  unfold longName
  generalize hchars : List.replicate 102 'a' = chars
  rw [String.length_ofList, ← hchars, List.length_replicate]

def creation (name : String) : Except StoreError ((Target × Bool) × Db) :=
  createTarget (Sample.env 1) authorization "create-target" "request" (targetDraw 1)
    (hostSpec name) housed

def rollFacts (name : String) (db : Db) : Option TargetRow × Bool :=
  (db.targets.get? 10,
    (db.idempotency.get? ⟨1, 2, .targetsGenerationsCreate name, "roll-target"⟩).isNone &&
      decide ((targetDraw 2).Fresh (hostSpec name) db))

theorem rollRequest (name : String) (answer : (Target × Bool) × Db)
    (hrow : row.namespaceId = 1 ∧ row.name = name ∧ row.kind = .host ∧ row.revision = 1)
    (hvalid : validateTargetGenerationChange ⟨1, hostSpec name⟩ = .ok ())
    (hfacts : rollFacts name answer.2 = (some row, true)) :
    RollRequest answer.2 ⟨1, 2, false⟩ row "roll-target" (targetDraw 2) ⟨1, hostSpec name⟩ := by
  simp only [rollFacts, Prod.mk.injEq, Bool.and_eq_true, Option.isNone_iff_eq_none,
    decide_eq_true_eq] at hfacts
  obtain ⟨-, hkey, hfresh⟩ := hfacts
  obtain ⟨hns, hname, hkind, hrevision⟩ := hrow
  exact ⟨hns.symm, hvalid, hname.symm, hkind.symm, by rw [hrevision]; rfl, by decide,
    hname ▸ hkey, hfresh⟩

end Sample

theorem generation_succeeds_cluster : ∃ target db₁ result db',
    Sample.creation "cluster" = .ok ((target, false), db₁) ∧
      createTargetGeneration lockTargetGeneration (Sample.env 2) Sample.authorization "cluster"
        "roll-target" "request" (Sample.targetDraw 2) ⟨1, Sample.hostSpec "cluster"⟩ db₁ =
        .ok ((result, false), db') ∧ result.generationId = 21 := by
  have hcreated : (Sample.creation "cluster").toOption.map (fun answer =>
      (answer.1.2, answer.1.1.id, Sample.rollFacts "cluster" answer.2)) =
      some (false, 10, some ⟨1, "cluster", .active, some 11, .host, 1, 1, 1⟩, true) := by
    decide
  obtain ⟨⟨⟨target, replayed⟩, db₁⟩, hok, hfacts⟩ := Option.map_eq_some_iff.mp hcreated
  rw [Relational.toOption_eq_some_iff] at hok
  simp only [Prod.mk.injEq] at hfacts
  obtain ⟨rfl, hid, hfacts⟩ := hfacts
  have hrequest := Sample.rollRequest "cluster" ((target, false), db₁)
    ⟨rfl, rfl, rfl, rfl⟩ (by decide) hfacts
  have hiff := generation_succeeds_iff (Sample.env 2)
    (Service.later_run Sample.platform _ _) hok .refl (hid ▸ congrArg Prod.fst hfacts) (by simp)
    "request" hrequest
  obtain ⟨result, db', hroll, hgeneration, -⟩ := hiff.2.2.mpr (by decide)
  exact ⟨target, db₁, result, db', hok, hroll, hgeneration⟩

/-- A target whose name has 102 characters is created and can never be rolled. -/
theorem long_name_never_rolled : ∃ target db₁ row,
    Service.Arises Sample.platform Sample.housed ∧
      Sample.creation Sample.longName = .ok ((target, false), db₁) ∧
      db₁.targets.get? target.id = some row ∧ row.state ≠ .retired ∧
      RollRequest db₁ ⟨1, 2, false⟩ row "roll-target" (Sample.targetDraw 2)
        ⟨1, Sample.hostSpec Sample.longName⟩ ∧
      ∀ answer, createTargetGeneration lockTargetGeneration (Sample.env 2) Sample.authorization
        Sample.longName "roll-target" "request" (Sample.targetDraw 2)
        ⟨1, Sample.hostSpec Sample.longName⟩ db₁ ≠ .ok answer := by
  have hcreated : (Sample.creation Sample.longName).toOption.map (fun answer =>
      (answer.1.2, answer.1.1.id, Sample.rollFacts Sample.longName answer.2)) =
      some (false, 10, some ⟨1, Sample.longName, .active, some 11, .host, 1, 1, 1⟩, true) := by
    decide
  obtain ⟨⟨⟨target, replayed⟩, db₁⟩, hok, hfacts⟩ := Option.map_eq_some_iff.mp hcreated
  rw [Relational.toOption_eq_some_iff] at hok
  simp only [Prod.mk.injEq] at hfacts
  obtain ⟨rfl, hid, hfacts⟩ := hfacts
  refine ⟨target, db₁, _, Service.later_run _ _ _, hok, hid ▸ congrArg Prod.fst hfacts, by simp,
    Sample.rollRequest Sample.longName ((target, false), db₁) ⟨rfl, rfl, rfl, rfl⟩
      (by decide) hfacts, ?_⟩
  rintro ⟨⟨result, replayed⟩, db'⟩ hok
  obtain ⟨_, locked, -, -, hlength, -⟩ := createTargetGeneration_ok hok
  rw [operationText_length] at hlength
  have hlong := Sample.longName_length
  lia

end JobmanControl
