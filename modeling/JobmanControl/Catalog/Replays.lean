import JobmanControl.Catalog.Suitability

/-!
Submissions that are repeated. A submission leaves a record of its request under the
caller's key, and as long as the record is there, the same request is answered from it:
with the resource of the first call and without writing anything.
-/

namespace JobmanControl

open Relational

variable {ids : GroupIds} {name key : String} {entry : (Id × Nat) × MemberRow}
  {namespaceId groupId : Id}

variable {codec : Codec} {env : Env} {queued : Db → Id → Nat} {authorization : Authorization}
  {platform : Platform} {db db₁ db₂ : Db}

/-- Between reserving a key and completing it, an admission leaves the records alone. -/
theorem recordsFootprint (codec : Codec) (env : Env) :
    AdmissionFootprint codec env (fun _ _ => True) fun db db' =>
      db'.idempotency = db.idempotency where
  refl _ := rfl
  trans h h' := h'.trans h
  updateJob _ h := by
    obtain ⟨jobs, outbox, rfl⟩ := Db.updateJob_eq h
    rfl
  updateRun _ h := by
    obtain ⟨runs, rfl⟩ := Db.updateRun_eq h
    rfl
  insertOutbox h _ := by
    obtain ⟨outbox, rfl⟩ := insertOutbox_ok h
    rfl
  insertWorkload _ := rfl
  insertCollection _ := rfl
  insertGraph _ := rfl
  touchCollection _ _ := rfl
  touchGraph _ _ := rfl
  insertJob _ _ _ := rfl
  insertItem _ _ := rfl
  insertNode _ _ _ := rfl
  updateExecutions _ := rfl
  updateAssignments _ := rfl
  elsewhere h := congrArg WatchedTables.idempotency h

/-- A later store still has the record of the caller's key. -/
def Db.Retains (db db' : Db) (authorization : Authorization) (operation : IdempotentOperation)
    (key : String) : Prop :=
  db'.idempotency.get? (authorization.record operation key) =
    db.idempotency.get? (authorization.record operation key)

/-- What a call under a key left is what the same request under the same key finds. -/
theorem Keyed.answers {operation : IdempotentOperation} {type : ResourceType} {status : Nat}
    {digest : String} {resource : Id} {replayed : Bool}
    (h : Keyed (fun db db' => db'.idempotency = db.idempotency) env authorization operation type
      status key digest resource replayed db db₁)
    (hkept : db₁.Retains db₂ authorization operation key) :
    reserveIdempotency db₂ authorization operation type key digest status =
      .ok (some resource, db₂) := by
  cases h with
  | replay hreserve =>
      obtain ⟨hlength, ⟨hnone, -⟩ | ⟨response, hrow, hstatus, hresource, rfl⟩⟩ :=
        reserveIdempotency_cases hreserve
      · cases hnone
      · cases hresource
        exact reserveIdempotency_completed hlength hstatus (hkept.trans hrow)
  | perform hreserve hbefore hcomplete hafter =>
      have hrow := reserve_complete_get? hreserve hcomplete hbefore
        (authorization.record operation key)
      rw [if_pos rfl, ← hafter] at hrow
      have hanswer := reserveIdempotency_completed (reserveIdempotency_cases hreserve).1 rfl
        (hkept.trans hrow)
      exact hanswer

theorem submitCollection_existing {authorization : Except StoreError Authorization}
    {submission : CollectionSubmission} {result : CollectionResult} {row : CollectionRow}
    (hrow : db.collections.get? ids.groupId = some row)
    (h : submitCollection codec env queued authorization key ids submission db =
      .ok (result, db₁)) : db₁ = db := by
  simp only [submitCollection, bind_ok_iff] at h
  obtain ⟨_, -, _, -, granted, rfl, ⟨replayed, db₂⟩, hreserve, h⟩ := h
  obtain ⟨-, ⟨rfl, idempotency, -, rfl⟩ | ⟨response, -, -, rfl, rfl⟩⟩ :=
    reserveIdempotency_cases hreserve
  · simp only [bind_ok_iff, need_ok_iff] at h
    obtain ⟨_, -, _, -, _, -, collections, hinsert, -⟩ := h
    cases (Table.insert?_free hinsert).symm.trans hrow
  · simp only [bind_ok_iff, pure_ok_iff, Prod.mk.injEq] at h
    obtain ⟨_, -, -, rfl⟩ := h
    rfl

theorem submitGraph_existing {authorization : Except StoreError Authorization}
    {submission : GraphSubmission} {result : GraphResult} {row : GraphRow}
    (hrow : db.graphs.get? ids.groupId = some row)
    (h : submitGraph codec env queued authorization key ids submission db = .ok (result, db₁)) :
    db₁ = db := by
  simp only [submitGraph, bind_ok_iff] at h
  obtain ⟨_, -, _, -, granted, rfl, ⟨replayed, db₂⟩, hreserve, h⟩ := h
  obtain ⟨-, ⟨rfl, idempotency, -, rfl⟩ | ⟨response, -, -, rfl, rfl⟩⟩ :=
    reserveIdempotency_cases hreserve
  · simp only [bind_ok_iff, need_ok_iff] at h
    obtain ⟨_, -, _, -, graphs, hinsert, -⟩ := h
    cases (Table.insert?_free hinsert).symm.trans hrow
  · simp only [bind_ok_iff, pure_ok_iff, Prod.mk.injEq] at h
    obtain ⟨_, -, -, rfl⟩ := h
    rfl

/-- A call that asks for a member of a group that is there already changes nothing. -/
theorem Operation.apply_existing {operation : Operation} {submission : JobSubmission}
    {grouping : Grouping} (hasks : operation.asks submission grouping)
    (hrow : (∃ c i row, grouping = .collection c i ∧ db.collections.get? c = some row) ∨
      ∃ g i row, grouping = .graph g i none ∧ db.graphs.get? g = some row) :
    operation.apply codec env db = db := by
  cases operation with
  | submitCollection authorization key ids submission =>
      obtain ⟨i, -, rfl⟩ := hasks
      obtain ⟨_, _, row, hgroup, hrow⟩ | ⟨_, _, _, hgroup, -⟩ := hrow <;> cases hgroup
      obtain ⟨_, hok⟩ | hsame := atomically_cases
        (JobmanControl.submitCollection codec env queuedJobs authorization key ids submission) db
      · exact submitCollection_existing hrow hok
      · exact hsame
  | submitGraph authorization key ids submission =>
      obtain ⟨i, -, rfl⟩ := hasks
      obtain ⟨_, _, _, hgroup, -⟩ | ⟨_, _, row, hgroup, hrow⟩ := hrow <;> cases hgroup
      obtain ⟨_, hok⟩ | hsame := atomically_cases
        (JobmanControl.submitGraph codec env queuedJobs authorization key ids submission) db
      · exact submitGraph_existing hrow hok
      · exact hsame
  | submitJob | importCompletedHistory =>
      obtain ⟨-, rfl⟩ := hasks
      obtain ⟨_, _, _, hgroup, -⟩ | ⟨_, _, _, hgroup, -⟩ := hrow <;> cases hgroup
  | _ => cases hasks

/-- The members of the groups there are, and the jobs of all nodes. -/
structure Db.MembersKept (db db' : Db) : Prop where
  items : ∀ c row, db.collections.get? c = some row →
    membersOf db'.collectionItems c = membersOf db.collectionItems c
  nodes : ∀ g row, db.graphs.get? g = some row →
    membersOf db'.graphNodes g = membersOf db.graphNodes g
  housed : db.NodesHoused → db'.NodesHoused

theorem ServiceCall.membersKept (call : ServiceCall) (platform : Platform) (db : Db) :
    db.MembersKept (call.apply platform db) := by
  obtain ⟨operation, hoperation, hsettled⟩ | ⟨ids, c, job, _, _, _, _, _, hchosen,
    hdispatches⟩ | hapart := call.apply_cases platform db
  · have happly : call.apply platform db = operation.apply platform.codec call.env db := by
      rw [ServiceCall.apply, hoperation]
    refine ⟨fun c row hrow => ?_, fun g row hrow => ?_, hsettled.members.housed⟩
    · by_cases hasked : ∃ submission i, operation.asks submission (.collection c i)
      · obtain ⟨submission, i, hasks⟩ := hasked
        rw [happly, operation.apply_existing hasks (Or.inl ⟨c, i, row, rfl, hrow⟩)]
      · exact hsettled.members.items c fun submission i h => hasked ⟨submission, i, h⟩
    · by_cases hasked : ∃ submission i, operation.asks submission (.graph g i none)
      · obtain ⟨submission, i, hasks⟩ := hasked
        rw [happly, operation.apply_existing hasks (Or.inr ⟨g, i, row, rfl, hrow⟩)]
      · exact hsettled.members.nodes g fun submission i h => hasked ⟨submission, i, h⟩
  · have hpreserves := hdispatches.preserves hchosen.jobRow
    obtain ⟨_, _, _, _, _, _, _, hrest⟩ := hdispatches.rest
    generalize call.apply platform db = db' at hpreserves hrest
    subst hrest
    refine ⟨fun _ _ _ => rfl, fun _ _ _ => rfl, fun hhoused k node hnode => ?_⟩
    obtain ⟨row, hrow⟩ := hhoused k node hnode
    obtain ⟨row', hrow', -⟩ := hpreserves.job _ row hrow
    exact ⟨row', hrow'⟩
  · have hitems := congrArg WorkTables.collectionItems hapart.work
    have hnodes := congrArg WorkTables.graphNodes hapart.work
    have hjobs := congrArg WorkTables.jobs hapart.work
    simp only [Db.workTables] at hitems hnodes hjobs
    refine ⟨fun _ _ _ => by rw [hitems], fun _ _ _ => by rw [hnodes], fun hhoused => ?_⟩
    unfold Db.NodesHoused
    rw [hnodes, hjobs]
    exact hhoused

namespace Service

theorem Arises.nodesHoused (h : Arises platform db) : db.NodesHoused :=
  h.invariant (P := Db.NodesHoused) (fun _ _ h => by cases h)
    fun _ call _ hhoused _ hstep => hstep ▸ (call.membersKept platform _).housed hhoused

/-- A collection stays in its namespace, with its members. -/
theorem Later.collection_members (h : Later platform db db₁) {c : Id} {row : CollectionRow}
    (hrow : db.collections.get? c = some row) :
    ∃ row', db₁.collections.get? c = some row' ∧ row'.namespaceId = row.namespaceId ∧
      membersOf db₁.collectionItems c = membersOf db.collectionItems c := by
  refine h.invariant (P := fun d => ∃ row', d.collections.get? c = some row' ∧
    row'.namespaceId = row.namespaceId ∧
    membersOf d.collectionItems c = membersOf db.collectionItems c) ⟨row, hrow, rfl, rfl⟩ ?_
  rintro d call d' ⟨mid, hmid, hnamespace, hmembers⟩ - hstep
  obtain ⟨row', hrow', hsame⟩ := Option.map_eq_some_iff.mp
    (hstep.extends.collection c mid.namespaceId (congrArg (Option.map _) hmid))
  have hkept := (call.membersKept platform d).items c mid hmid
  exact ⟨row', hrow', hsame.trans hnamespace, (hstep ▸ hkept).trans hmembers⟩

theorem Later.graph_members (h : Later platform db db₁) {g : Id} {row : GraphRow}
    (hrow : db.graphs.get? g = some row) :
    ∃ row', db₁.graphs.get? g = some row' ∧ row'.namespaceId = row.namespaceId ∧
      membersOf db₁.graphNodes g = membersOf db.graphNodes g := by
  refine h.invariant (P := fun d => ∃ row', d.graphs.get? g = some row' ∧
    row'.namespaceId = row.namespaceId ∧
    membersOf d.graphNodes g = membersOf db.graphNodes g) ⟨row, hrow, rfl, rfl⟩ ?_
  rintro d call d' ⟨mid, hmid, hnamespace, hmembers⟩ - hstep
  obtain ⟨row', hrow', hsame⟩ := Option.map_eq_some_iff.mp
    (hstep.extends.graph g mid.namespaceId (congrArg (Option.map _) hmid))
  have hkept := (call.membersKept platform d).nodes g mid hmid
  exact ⟨row', hrow', hsame.trans hnamespace, (hstep ▸ hkept).trans hmembers⟩

end Service

theorem Db.Preserves.getJobWithQuerier (h : db₁.Preserves db₂) {j : Id} {job : Job}
    (hjob : getJobWithQuerier db₁ name j = .ok job) :
    ∃ job', JobmanControl.getJobWithQuerier db₂ name j = .ok job' ∧ job'.id = job.id := by
  obtain ⟨hid, hrow, hname⟩ := getJobWithQuerier_ok_iff.mp hjob
  obtain ⟨row', hrow', hkeeps⟩ := h.job j job.row hrow
  refine ⟨⟨j, row'⟩, getJobWithQuerier_ok_iff.mpr ⟨rfl, hrow', ?_⟩, hid.symm⟩
  exact h.namespaceName _ name (hkeeps.columns.1 ▸ hname)

theorem Db.Preserves.loadCollectionItem (h : db₁.Preserves db₂) {item : CollectionItem}
    (hitem : loadCollectionItem db₁ name entry = .ok item) :
    ∃ item', JobmanControl.loadCollectionItem db₂ name entry = .ok item' ∧
      item'.member = item.member := by
  simp only [JobmanControl.loadCollectionItem, bind_ok_iff, pure_ok_iff] at hitem ⊢
  obtain ⟨job, hjob, rfl⟩ := hitem
  obtain ⟨job', hjob', hsame⟩ := h.getJobWithQuerier hjob
  exact ⟨_, ⟨job', hjob', rfl⟩, by rw [CollectionItem.member, hsame]; rfl⟩

theorem Db.Preserves.loadGraphItem (h : db₁.Preserves db₂) {item : GraphItem}
    (hitem : loadGraphItem db₁ name groupId entry = .ok item) :
    ∃ item', JobmanControl.loadGraphItem db₂ name groupId entry = .ok item' ∧
      item'.member = item.member := by
  simp only [JobmanControl.loadGraphItem, bind_ok_iff, ensure_ok_iff, pure_ok_iff] at hitem ⊢
  obtain ⟨job, hjob, -, -, rfl⟩ := hitem
  obtain ⟨job', hjob', hsame⟩ := h.getJobWithQuerier hjob
  exact ⟨_, ⟨job', hjob', (), loadGraphDependencies_scanned _ _ _, rfl⟩,
    by rw [GraphItem.member, hsame]; rfl⟩

/-- A collection that could be read can be read ever after, with the same members. -/
theorem Service.Later.getCollectionById (h : Later platform db₁ db₂) {collection : Collection}
    (hread : getCollectionById db₁ namespaceId groupId = .ok collection) :
    ∃ collection', JobmanControl.getCollectionById db₂ namespaceId groupId = .ok collection' ∧
      collection'.id = collection.id ∧ collection'.members = collection.members := by
  have hid := getCollectionById_id hread
  obtain ⟨row, name, hrow, rfl, hname, hitems⟩ :=
    getCollectionById_ok_iff.mp ⟨collection, hread, hid, rfl⟩
  obtain ⟨row', hrow', hnamespace, hmembers⟩ := h.collection_members hrow
  rw [loadCollectionItems, ← hmembers] at hitems
  obtain ⟨items', hitems', hview⟩ := mapM_ok_view CollectionItem.member _
    (fun _ _ _ hitem => h.preserves.loadCollectionItem hitem) hitems
  obtain ⟨collection', hread', hid', hitems''⟩ := getCollectionById_ok_iff.mpr
    ⟨row', name, hrow', hnamespace, h.preserves.namespaceName _ name hname, hitems'⟩
  refine ⟨collection', hread', hid'.trans hid.symm, ?_⟩
  rw [Collection.members, hitems'']
  exact hview

theorem Service.Later.getGraphById (h : Later platform db₁ db₂) (harises : Arises platform db₁)
    {graph : Graph} (hread : getGraphById db₁ namespaceId groupId = .ok graph) :
    ∃ graph', JobmanControl.getGraphById db₂ namespaceId groupId = .ok graph' ∧
      graph'.id = graph.id ∧ graph'.members = graph.members := by
  have hid := getGraphById_id hread
  obtain ⟨row, name, hrow, rfl, hname, hitems⟩ := getGraphById_ok_iff.mp ⟨graph, hread, hid, rfl⟩
  obtain ⟨row', hrow', hnamespace, hmembers⟩ := h.graph_members hrow
  -- Every node has its job before and after, so the join leaves out none of them.
  have hall : ∀ {d : Db}, d.NodesHoused → (membersOf d.graphNodes groupId).filter
      (fun entry => (d.jobs.get? entry.2.jobId).isSome) = membersOf d.graphNodes groupId := by
    intro d hhoused
    refine List.filter_eq_self.mpr fun entry hmem => Option.isSome_iff_exists.mpr ?_
    rw [membersOf, mem_orderBy, Table.mem_select] at hmem
    exact hhoused entry.1 entry.2 hmem.1
  rw [loadGraphItems, hall harises.nodesHoused, ← hmembers] at hitems
  obtain ⟨items', hitems', hview⟩ := mapM_ok_view GraphItem.member _
    (fun _ _ _ hitem => h.preserves.loadGraphItem hitem) hitems
  obtain ⟨graph', hread', hid', hitems''⟩ := getGraphById_ok_iff.mpr
    ⟨row', name, hrow', hnamespace, h.preserves.namespaceName _ name hname, by
      rw [loadGraphItems, hall (Arises.nodesHoused (harises.trans h))]
      exact hitems'⟩
  refine ⟨graph', hread', hid'.trans hid.symm, ?_⟩
  rw [Graph.members, hitems'']
  exact hview

theorem submitJob_job {jobId outboxId : Id} {submission : JobSubmission} {result : SubmitResult}
    (h : submitJob codec env queued (.ok authorization) key jobId outboxId submission db =
      .ok (result, db₁)) :
    getJobById db₁ authorization.namespaceId result.job.id = .ok result.job := by
  simp only [submitJob, bind_ok_iff, Prod.exists, Except.ok.injEq] at h
  obtain ⟨-, -, -, -, _, rfl, _, _, -, h⟩ := h
  split at h
  · simp only [bind_ok_iff, pure_ok_iff, Prod.mk.injEq] at h
    obtain ⟨_, hjob, rfl, rfl⟩ := h
    cases getJobById_id hjob
    exact hjob
  · simp only [bind_ok_iff, pure_ok_iff, Prod.mk.injEq] at h
    obtain ⟨-, -, _, -, _, -, _, -, _, hjob, _, hcomplete, _, hevidence, rfl, rfl⟩ := h
    cases getJobById_id hjob
    obtain ⟨_, rfl⟩ := completeIdempotency_ok hcomplete
    obtain ⟨_, rfl⟩ := insertOutbox_ok hevidence
    exact hjob

theorem submitCollection_collection {submission : CollectionSubmission} {result : CollectionResult}
    (h : submitCollection codec env queued (.ok authorization) key ids
      submission db = .ok (result, db₁)) :
    getCollectionById db₁ authorization.namespaceId result.collection.id =
      .ok result.collection := by
  simp only [submitCollection, bind_ok_iff, Prod.exists, Except.ok.injEq] at h
  obtain ⟨-, -, -, -, _, rfl, _, _, -, h⟩ := h
  split at h <;> simp only [bind_ok_iff, pure_ok_iff, Prod.mk.injEq] at h
  · obtain ⟨_, hread, rfl, rfl⟩ := h
    rw [getCollectionById_id hread]
    exact hread
  · obtain ⟨_, -, _, -, _, -, _, -, _, -, _, -, _, -, _, hread, rfl, rfl⟩ := h
    rw [getCollectionById_id hread]
    exact hread

theorem submitGraph_graph {submission : GraphSubmission} {result : GraphResult}
    (h : submitGraph codec env queued (.ok authorization) key ids submission db =
      .ok (result, db₁)) :
    getGraphById db₁ authorization.namespaceId result.graph.id = .ok result.graph := by
  simp only [submitGraph, bind_ok_iff, Prod.exists, Except.ok.injEq] at h
  obtain ⟨-, -, -, -, _, rfl, _, _, -, h⟩ := h
  split at h <;> simp only [bind_ok_iff, pure_ok_iff, Prod.mk.injEq] at h
  · obtain ⟨_, hread, rfl, rfl⟩ := h
    rw [getGraphById_id hread]
    exact hread
  · obtain ⟨_, -, _, -, _, -, _, -, _, -, _, -, _, -, _, hread, rfl, rfl⟩ := h
    rw [getGraphById_id hread]
    exact hread

/-- As long as its record is retained, a submission that succeeded is answered with what it
created as that is now, whatever was called in between and whatever is drawn for the
repetition. A group has the members it had. -/
theorem submissions_replay (hlater : Service.Later platform db₁ db₂) :
    (∀ jobId outboxId submission result,
      submitJob codec env queued (.ok authorization) key jobId outboxId submission db =
        .ok (result, db₁) → db₁.Retains db₂ authorization .jobsCreate key →
      ∃ row, db₂.jobs.get? result.job.id = some row ∧ ∀ env' queued' jobId' outboxId',
        submitJob codec env' queued' (.ok authorization) key jobId' outboxId' submission db₂ =
          .ok (⟨⟨result.job.id, row⟩, true⟩, db₂)) ∧
    (∀ ids submission result,
      submitCollection codec env queued (.ok authorization) key ids submission db =
        .ok (result, db₁) → db₁.Retains db₂ authorization .collectionsCreate key →
      ∃ collection, collection.id = result.collection.id ∧
        collection.members = result.collection.members ∧
        getCollectionById db₂ authorization.namespaceId collection.id = .ok collection ∧
        ∀ env' queued' ids', submitCollection codec env' queued' (.ok authorization) key ids'
          submission db₂ = .ok (⟨collection, true⟩, db₂)) ∧
    (∀ ids submission result, Service.Arises platform db₁ →
      submitGraph codec env queued (.ok authorization) key ids submission db =
        .ok (result, db₁) → db₁.Retains db₂ authorization .graphsCreate key →
      ∃ graph, graph.id = result.graph.id ∧ graph.members = result.graph.members ∧
        getGraphById db₂ authorization.namespaceId graph.id = .ok graph ∧
        ∀ env' queued' ids', submitGraph codec env' queued' (.ok authorization) key ids'
          submission db₂ = .ok (⟨graph, true⟩, db₂)) := by
  have hrecords := recordsFootprint codec env
  refine ⟨fun jobId outboxId submission result h hkept => ?_,
    fun ids submission result h hkept => ?_, fun ids submission result harises h hkept => ?_⟩
  · obtain ⟨_, hgranted, hkeyed⟩ := hrecords.submitJob trivial h
    cases hgranted
    have hjob := submitJob_job h
    simp only [getJobById, bind_ok_iff, need_ok_iff, ensure_ok_iff] at hjob
    obtain ⟨row, hrow, -, hnamespace, -⟩ := hjob
    obtain ⟨row', hrow', hkeeps⟩ := hlater.preserves.job _ row hrow
    refine ⟨row', hrow', fun env' queued' jobId' outboxId' => ?_⟩
    simp only [submitJob, bind_ok_iff] at h
    obtain ⟨_, hkey, _, hvalid, -⟩ := h
    have hsame := hkeeps.columns.1.trans hnamespace
    simp only [submitJob, hkey, hvalid, ok_bind, hkeyed.answers hkept, getJobById,
      need_of_eq_some hrow', ensure_of_true hsame]
    rfl
  · obtain ⟨_, hgranted, hkeyed⟩ := hrecords.submitCollection (fun _ _ _ => trivial) h
    cases hgranted
    obtain ⟨collection, hread, hid, hmembers⟩ :=
      hlater.getCollectionById (submitCollection_collection h)
    refine ⟨collection, hid, hmembers, by rw [hid]; exact hread, fun env' queued' ids' => ?_⟩
    simp only [submitCollection, bind_ok_iff] at h
    obtain ⟨_, hkey, _, hvalid, -⟩ := h
    simp only [submitCollection, hkey, hvalid, ok_bind, hkeyed.answers hkept, hread]
    rfl
  · obtain ⟨_, hgranted, hkeyed⟩ := hrecords.submitGraph (fun _ _ _ => trivial) h
    cases hgranted
    obtain ⟨graph, hread, hid, hmembers⟩ := hlater.getGraphById harises (submitGraph_graph h)
    refine ⟨graph, hid, hmembers, by rw [hid]; exact hread, fun env' queued' ids' => ?_⟩
    simp only [submitGraph, bind_ok_iff] at h
    obtain ⟨_, hkey, _, hvalid, -⟩ := h
    simp only [submitGraph, hkey, hvalid, ok_bind, hkeyed.answers hkept, hread]
    rfl

namespace Sample

theorem dispatched_after_awaiting : Service.Later Sample.platform awaiting dispatched :=
  Service.later_run Sample.platform awaiting dispatching

theorem dispatched_after_swept : Service.Later Sample.platform swept dispatched :=
  (Transition.Reaches.tail submitSole .refl trivial rfl).trans dispatched_after_awaiting

theorem dispatched_after_paired : Service.Later Sample.platform paired dispatched :=
  (Transition.Reaches.tail submitSweep .refl trivial rfl).trans dispatched_after_swept

theorem paired_arises : Service.Arises Sample.platform paired :=
  .tail submitPair (Service.later_run Sample.platform Db.empty staffing) trivial rfl

/-- The answers to the submissions of the sample; their records are there at the end. -/
theorem submissions_answered :
    ((submitGraph Sample.codec (Sample.env 4) queuedJobs Sample.authorization "submit-pair"
      graphIds nativePair staffed).toOption.map fun answer => answer.1.graph.members) =
        some [(0, "first", 10), (1, "second", 11)] ∧
    ((submitCollection Sample.codec (Sample.env 5) queuedJobs Sample.authorization "submit-sweep"
      sweepIds sweep paired).toOption.map fun answer => answer.1.collection.members) =
        some [(0, "first", 30), (1, "second", 31)] ∧
    ((submitJob Sample.codec (Sample.env 6) queuedJobs Sample.authorization "submit-sole" 20 21
      (nativeSubmission "sole") swept).toOption.map fun answer => answer.1.job.id) = some 20 ∧
    paired.Retains dispatched ⟨1, 2, false⟩ .graphsCreate "submit-pair" ∧
    swept.Retains dispatched ⟨1, 2, false⟩ .collectionsCreate "submit-sweep" ∧
    awaiting.Retains dispatched ⟨1, 2, false⟩ .jobsCreate "submit-sole" := by
  unfold Db.Retains
  decide +kernel

end Sample

/-- The job, the collection and the graph of the sample are submitted again when some of their
work is under way. -/
theorem submissions_replay_dispatched :
    (∃ row, Sample.dispatched.jobs.get? 20 = some row ∧ ∀ env queued jobId outboxId,
      submitJob Sample.codec env queued Sample.authorization "submit-sole" jobId outboxId
        (Sample.nativeSubmission "sole") Sample.dispatched =
          .ok (⟨⟨20, row⟩, true⟩, Sample.dispatched)) ∧
    (∃ collection, collection.members = [(0, "first", 30), (1, "second", 31)] ∧
      ∀ env queued ids, submitCollection Sample.codec env queued Sample.authorization
        "submit-sweep" ids Sample.sweep Sample.dispatched =
          .ok (⟨collection, true⟩, Sample.dispatched)) ∧
    ∃ graph, graph.members = [(0, "first", 10), (1, "second", 11)] ∧
      ∀ env queued ids, submitGraph Sample.codec env queued Sample.authorization
        "submit-pair" ids Sample.nativePair Sample.dispatched =
          .ok (⟨graph, true⟩, Sample.dispatched) := by
  obtain ⟨hpair, hsweep, hsole, hpairKept, hsweepKept, hsoleKept⟩ := Sample.submissions_answered
  refine ⟨?_, ?_, ?_⟩
  · obtain ⟨result, h, hid⟩ :=
      ok_of_view _ Sample.swept (fun result : SubmitResult => result.job.id) hsole
    obtain ⟨row, hrow, hreplay⟩ :=
      (submissions_replay Sample.dispatched_after_awaiting).1 20 21 _ result h hsoleKept
    rw [hid] at hrow hreplay
    exact ⟨row, hrow, hreplay⟩
  · obtain ⟨result, h, hmembers⟩ :=
      ok_of_view _ Sample.paired (fun result : CollectionResult => result.collection.members) hsweep
    obtain ⟨collection, -, hsame, -, hreplay⟩ :=
      (submissions_replay Sample.dispatched_after_swept).2.1 _ _ result h hsweepKept
    exact ⟨collection, hsame.trans hmembers, hreplay⟩
  · obtain ⟨result, h, hmembers⟩ :=
      ok_of_view _ Sample.staffed (fun result : GraphResult => result.graph.members) hpair
    obtain ⟨graph, -, hsame, -, hreplay⟩ := (submissions_replay
      Sample.dispatched_after_paired).2.2 _ _ result Sample.paired_arises h hpairKept
    exact ⟨graph, hsame.trans hmembers, hreplay⟩

end JobmanControl
