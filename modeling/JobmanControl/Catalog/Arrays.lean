import JobmanControl.Catalog.Standing
import JobmanControl.Catalog.Suitability

/-!
Collections that run as one Slurm array. Whether a collection is one is settled when it is
submitted, from where its members were placed and what they request. From then on its
members stay where they are and keep their numbers, and the agent that got the first of
them gets every other one: a dispatch finds it again among the executions there are.
-/

namespace JobmanControl

open Relational Lifecycle Lifecycle.Board

variable {k : Id} {ids : GroupIds} {first : ResolvedPlacement} {c : AssignmentCandidate}

/-! The mode of a collection. -/

/-- Members that fit into one array. -/
structure Alike (codec : Codec) (placements : List ResolvedPlacement)
    (items : List JobSubmission) : Prop where
  several : 2 ≤ items.length
  slurm : ∀ placement ∈ placements, placement.executionBackend = .slurm
  generation : ∀ placement ∈ placements, ∀ other ∈ placements,
    placement.targetGenerationId = other.targetGenerationId
  partition : ∀ placement ∈ placements, ∀ other ∈ placements, placement.partition = other.partition
  resources : ∃ encoded, ∀ item ∈ items, codec.resources item.workloadDocument = some encoded

variable {key : String} {j e : Id} {job job' : JobRow} {row : ExecutionRow}
  {collection' : CollectionRow} {asked : JobSubmission → Grouping → Prop}

variable {codec : Codec} {platform : Platform} {env : Env} {submission : CollectionSubmission}
  {placements : List ResolvedPlacement} {granted : Authorization} {db db' : Db}

theorem arrayCompatible_ok {resources : Option String}
    {members : List (ResolvedPlacement × JobSubmission)} {compatible : Bool}
    (h : arrayCompatible codec first resources members = .ok compatible) :
    compatible = true ↔ (∀ m ∈ members, m.1.executionBackend = .slurm ∧
        m.1.targetGenerationId = first.targetGenerationId ∧ m.1.partition = first.partition) ∧
      ∃ encoded, (∀ expected, resources = some expected → encoded = expected) ∧
        ∀ m ∈ members, codec.resources m.2.workloadDocument = some encoded := by
  induction members generalizing resources with
  | nil =>
      cases h
      cases resources with
      | none => simp
      | some expected => simp
  | cons m rest ih =>
      obtain ⟨placement, item⟩ := m
      unfold arrayCompatible at h
      split at h
      · rename_i hunlike
        cases h
        simp only [Bool.false_eq_true, List.mem_cons, forall_eq_or_imp, false_iff]
        rintro ⟨⟨⟨hbackend, hgeneration, hpartition⟩, -⟩, -⟩
        obtain h | h | h := hunlike
        · exact h hbackend
        · exact h hgeneration
        · exact h hpartition
      · rename_i hlike
        push Not at hlike
        simp only [bind_ok_iff, need_ok_iff] at h
        obtain ⟨encoded, hencoded, h⟩ := h
        cases resources with
        | none =>
            rw [ih h]
            simp only [List.mem_cons, forall_eq_or_imp, hlike, true_and, hencoded,
              Option.some.injEq, reduceCtorEq, false_implies, implies_true, forall_eq']
            refine and_congr_right fun _ => exists_congr fun r => ?_
            exact and_congr_left fun _ => eq_comm
        | some expected =>
            dsimp only at h
            split at h
            · rename_i hother
              cases h
              simp only [Bool.false_eq_true, List.mem_cons, forall_eq_or_imp, false_iff, hencoded,
                Option.some.injEq, forall_eq']
              rintro ⟨-, r, rfl, hsame, -⟩
              exact hother hsame
            · rename_i hsame
              rw [not_not] at hsame
              rw [ih h]
              simp only [List.mem_cons, forall_eq_or_imp, hlike, true_and, hencoded, hsame,
                Option.some.injEq, forall_eq']
              refine and_congr_right fun _ => exists_congr fun r => ?_
              constructor
              · rintro ⟨rfl, hrest⟩
                exact ⟨rfl, rfl, hrest⟩
              · rintro ⟨rfl, -, hrest⟩
                exact ⟨rfl, hrest⟩

theorem compatible_iff_alike {second : ResolvedPlacement} {rest : List ResolvedPlacement}
    {items : List JobSubmission} {compatible : Bool}
    (h : arrayCompatible codec first none ((first :: second :: rest).zip items) = .ok compatible)
    (hlength : (first :: second :: rest).length = items.length) :
    compatible = true ↔ Alike codec (first :: second :: rest) items := by
  have hfst : ((first :: second :: rest).zip items).map Prod.fst = first :: second :: rest :=
    List.map_fst_zip (le_of_eq hlength)
  have hsnd : ((first :: second :: rest).zip items).map Prod.snd = items :=
    List.map_snd_zip (ge_of_eq hlength)
  have hplacements : ∀ P : ResolvedPlacement → Prop,
      (∀ m ∈ (first :: second :: rest).zip items, P m.1) ↔
        ∀ p ∈ first :: second :: rest, P p := fun P => by
    conv_rhs => rw [← hfst]
    simp only [List.forall_mem_map]
  have hitems : ∀ encoded, (∀ m ∈ (first :: second :: rest).zip items,
      codec.resources m.2.workloadDocument = some encoded) ↔
        ∀ item ∈ items, codec.resources item.workloadDocument = some encoded := fun encoded => by
    conv_rhs => rw [← hsnd]
    simp only [List.forall_mem_map]
  rw [arrayCompatible_ok h, hplacements fun p => p.executionBackend = .slurm ∧
    p.targetGenerationId = first.targetGenerationId ∧ p.partition = first.partition]
  simp only [reduceCtorEq, false_implies, implies_true, true_and, hitems]
  constructor
  · rintro ⟨hplaced, hresources⟩
    refine ⟨?_, fun p hp => (hplaced p hp).1, fun p hp q hq => ?_, fun p hp q hq => ?_, hresources⟩
    · rw [← hlength]
      simp
    · rw [(hplaced p hp).2.1, (hplaced q hq).2.1]
    · rw [(hplaced p hp).2.2, (hplaced q hq).2.2]
  · intro h
    exact ⟨fun p hp => ⟨h.slurm p hp, h.generation p hp first List.mem_cons_self,
      h.partition p hp first List.mem_cons_self⟩, h.resources⟩

theorem resolveCollectionArrayMode_compatible {mode : ArrayMode}
    (h : resolveCollectionArrayMode codec submission placements = .ok mode)
    (hlength : placements.length = submission.items.length)
    (hpolicy : submission.arrayPolicy ≠ .never) :
    ∃ compatible : Bool, (compatible = true ↔ Alike codec placements submission.items) ∧
      (if compatible = true then (.ok .slurmArray : Except StoreError ArrayMode)
        else if submission.arrayPolicy = .require then
          .error (.invalidPlacement "collection cannot be compiled as one Slurm array")
        else .ok .individual) = .ok mode := by
  rw [resolveCollectionArrayMode, if_neg hpolicy] at h
  match placements, h, hlength with
  | [], h, hlength =>
      refine ⟨false, ?_, h⟩
      simp only [Bool.false_eq_true, false_iff]
      exact fun halike => absurd (hlength ▸ halike.several) (by simp)
  | [_], h, hlength =>
      refine ⟨false, ?_, h⟩
      simp only [Bool.false_eq_true, false_iff]
      exact fun halike => absurd (hlength ▸ halike.several) (by simp)
  | first :: second :: rest, h, hlength =>
      obtain ⟨compatible, hcompatible, hmode⟩ := (bind_ok_iff _ _ _).mp h
      exact ⟨compatible, compatible_iff_alike hcompatible hlength, hmode⟩

theorem resolveCollectionArrayMode_ok {mode : ArrayMode}
    (h : resolveCollectionArrayMode codec submission placements = .ok mode)
    (hlength : placements.length = submission.items.length) :
    (mode = .slurmArray ↔
      submission.arrayPolicy ≠ .never ∧ Alike codec placements submission.items) ∧
    (submission.arrayPolicy = .require → mode = .slurmArray) := by
  by_cases hnever : submission.arrayPolicy = .never
  · rw [resolveCollectionArrayMode, if_pos hnever] at h
    cases h
    simp [hnever]
  obtain ⟨compatible, halike, h⟩ := resolveCollectionArrayMode_compatible h hlength hnever
  split at h
  · rename_i hcompatible
    cases h
    exact ⟨by simp [hnever, halike.mp hcompatible], fun _ => rfl⟩
  split at h
  · cases h
  · rename_i hcompatible hrequire
    cases h
    refine ⟨?_, fun h => absurd h hrequire⟩
    simp only [reduceCtorEq, false_iff, not_and]
    exact fun _ h => hcompatible (halike.mpr h)

/-! The members of a collection. -/

def memberRow (env : Env) (granted : Authorization) (ids : GroupIds) (item : JobSubmission)
    (placement : ResolvedPlacement) (i : Nat) : JobRow :=
  { newJobRow env granted item placement with grouping := .collection ids.groupId i }

/-- What a collection submission that is not a replay leaves. -/
structure CollectionAccepted (codec : Codec) (env : Env) (granted : Authorization)
    (ids : GroupIds) (submission : CollectionSubmission) (placements : List ResolvedPlacement)
    (db db' : Db) : Prop where
  placed : submission.items.mapM (resolveTarget db granted.namespaceId) = .ok placements
  fresh : db.collections.get? ids.groupId = none
  collection : ∃ row : CollectionRow, db'.collections.get? ids.groupId = some row ∧
    resolveCollectionArrayMode codec submission placements = .ok row.arrayMode
  member : ∀ i item placement, submission.items[i]? = some item → placements[i]? = some placement →
    db'.jobs.get? (ids.jobId i) = some (memberRow env granted ids item placement i)
  free : ∀ i, i < submission.items.length → db.jobs.get? (ids.jobId i) = none
  distinct : ∀ i k, i < submission.items.length → k < submission.items.length →
    ids.jobId i = ids.jobId k → i = k
  kept : ∀ j, (∀ i, i < submission.items.length → j ≠ ids.jobId i) →
    db'.jobs.get? j = db.jobs.get? j

theorem insertCollectionItem_rows {entry : (JobSubmission × ResolvedPlacement) × Nat}
    (h : insertCollectionItem codec env granted key ids db entry = .ok db') :
    db.jobs.get? (ids.jobId entry.2) = none ∧ db'.collections = db.collections ∧
      ∀ j, db'.jobs.get? j = if j = ids.jobId entry.2 then
        some (memberRow env granted ids entry.1.1 entry.1.2 entry.2) else db.jobs.get? j := by
  simp only [insertCollectionItem, insertBoundJob, insertJob, bind_ok_iff, need_ok_iff,
    pure_ok_iff] at h
  obtain ⟨_, ⟨_, hworkload, _, ⟨jobs, hinsert, rfl⟩, rfl⟩, items, -, hevidence⟩ := h
  obtain ⟨workloads, rfl⟩ := insertWorkloadRevision_ok hworkload
  obtain ⟨audit, outbox, rfl⟩ := insertAcceptanceEvidence_writes hevidence
  refine ⟨Table.insert?_free hinsert, rfl, fun j => ?_⟩
  dsimp only
  rw [Table.get?_modify, Table.get?_insert hinsert]
  split
  · rfl
  · rfl

theorem insertCollectionItems_rows (l : List ((JobSubmission × ResolvedPlacement) × Nat))
    (h : l.foldlM (insertCollectionItem codec env granted key ids) db = .ok db') :
    db'.collections = db.collections ∧
      (∀ j, (∀ entry ∈ l, j ≠ ids.jobId entry.2) → db'.jobs.get? j = db.jobs.get? j) ∧
      (∀ entry ∈ l, db'.jobs.get? (ids.jobId entry.2) =
        some (memberRow env granted ids entry.1.1 entry.1.2 entry.2)) ∧
      (l.map fun entry => ids.jobId entry.2).Nodup ∧
      ∀ entry ∈ l, db.jobs.get? (ids.jobId entry.2) = none := by
  obtain ⟨⟨hcollections, hkept⟩, hmembers, -⟩ := foldlM_ok_forall
    (P := fun d => d.collections = db.collections ∧
      ∀ j, (∀ entry ∈ l, j ≠ ids.jobId entry.2) → d.jobs.get? j = db.jobs.get? j)
    (Q := fun entry d => d.jobs.get? (ids.jobId entry.2) =
      some (memberRow env granted ids entry.1.1 entry.1.2 entry.2)) l (by
      rintro d entry d' hentry ⟨hcollections, hkept⟩ hstep
      obtain ⟨hfree, hsame, hjobs⟩ := insertCollectionItem_rows hstep
      refine ⟨⟨hsame.trans hcollections, fun j hj => ?_⟩, by rw [hjobs, if_pos rfl], ?_⟩
      · rw [hjobs, if_neg (hj entry hentry)]
        exact hkept j hj
      · intro other hother
        have hne : ids.jobId other.2 ≠ ids.jobId entry.2 := fun heq => by
          cases hfree.symm.trans (heq ▸ hother)
        rw [hjobs, if_neg hne]
        exact hother) ⟨rfl, fun _ _ => rfl⟩ h
  obtain ⟨hnodup, hfree⟩ := foldlM_ok_nodup (P := fun _ => True)
    (Q := fun j d => d.jobs.get? j ≠ none) (fun entry => ids.jobId entry.2) l (by
      rintro d entry d' - hstep
      obtain ⟨hfree, -, hjobs⟩ := insertCollectionItem_rows hstep
      refine ⟨trivial, not_not.mpr hfree, by rw [hjobs, if_pos rfl]; simp, fun j hj => ?_⟩
      rw [hjobs]
      split
      · simp
      · exact hj) trivial h
  exact ⟨hcollections, hkept, hmembers, hnodup,
    fun entry hentry => not_not.mp (hfree _ (List.mem_map_of_mem hentry))⟩

theorem submitCollection_cases {queued : Db → Id → Nat}
    {authorization : Except StoreError Authorization} {result : CollectionResult}
    (h : submitCollection codec env queued authorization key ids submission db =
      .ok (result, db')) :
    (result.replayed = true ∧ db'.jobs = db.jobs) ∨
      (result.collection.id = ids.groupId ∧ ∃ granted placements, authorization = .ok granted ∧
        CollectionAccepted codec env granted ids submission placements db db') := by
  simp only [submitCollection, bind_ok_iff] at h
  obtain ⟨_, -, _, -, granted, rfl, ⟨replayed, db₁⟩, hreserve, h⟩ := h
  obtain ⟨t, rfl⟩ := reserveIdempotency_ok hreserve
  cases replayed with
  | some _ =>
      simp only [bind_ok_iff, pure_ok_iff, Prod.mk.injEq] at h
      obtain ⟨_, -, rfl, rfl⟩ := h
      exact Or.inl ⟨rfl, rfl⟩
  | none =>
      simp only [bind_ok_iff, need_ok_iff, pure_ok_iff, Prod.mk.injEq] at h
      obtain ⟨_, -, placements, hplacements, mode, hmode, collections, hinsert, db₂, hitems, db₃,
        hcomplete, db₄, hout, _, hget, rfl, rfl⟩ := h
      obtain ⟨t', rfl⟩ := completeIdempotency_ok hcomplete
      obtain ⟨outbox, rfl⟩ := insertOutbox_ok hout
      obtain ⟨hcollections, hkept, hmembers, hnodup, hfree⟩ := insertCollectionItems_rows _ hitems
      have hlength : (submission.items.zip placements).length = submission.items.length := by
        rw [List.length_zip, mapM_ok_length _ hplacements, min_self]
      have hentry : ∀ i, i < submission.items.length →
          ∃ entry ∈ (submission.items.zip placements).zipIdx, entry.2 = i := by
        intro i hi
        rw [← hlength] at hi
        exact ⟨(_, i), List.mk_mem_zipIdx_iff_getElem?.mpr (List.getElem?_eq_getElem hi), rfl⟩
      have hbelow : ∀ entry ∈ (submission.items.zip placements).zipIdx,
          entry.2 < submission.items.length := by
        rintro ⟨⟨item, placement⟩, i⟩ hmem
        rw [← hlength]
        exact (List.getElem?_eq_some_iff.mp (List.mk_mem_zipIdx_iff_getElem?.mp hmem)).1
      have hrow : ∃ row : CollectionRow, db₂.collections.get? ids.groupId = some row ∧
          resolveCollectionArrayMode codec submission placements = .ok row.arrayMode := by
        rw [hcollections]
        exact ⟨_, (Table.get?_insert hinsert _).trans (if_pos rfl), hmode⟩
      refine Or.inr ⟨getCollectionById_id hget, granted, placements, rfl, hplacements,
        Table.insert?_free hinsert, hrow, ?_, ?_, ?_, ?_⟩
      · intro i item placement hi hp
        exact hmembers ((item, placement), i) (List.mk_mem_zipIdx_iff_getElem?.mpr
          (List.getElem?_zip_eq_some.mpr ⟨hi, hp⟩))
      · intro i hi
        obtain ⟨entry, hmem, rfl⟩ := hentry i hi
        exact hfree entry hmem
      · intro i k hi hk hsame
        rw [← hlength] at hi hk
        rw [List.nodup_iff_injective_getElem] at hnodup
        have hinj := @hnodup ⟨i, by simpa using hi⟩ ⟨k, by simpa using hk⟩ (by simpa using hsame)
        simpa using hinj
      · intro j hj
        exact hkept j fun entry hmem => hj entry.2 (hbelow entry hmem)

/-! The array in the store. -/

def Db.Member (db : Db) (k j : Id) (job : JobRow) : Prop :=
  db.jobs.get? j = some job ∧ job.grouping.collectionId = some k

def Db.memberCount (db : Db) (k : Id) : Nat :=
  db.jobs.count fun _ child => child.grouping.collectionId = some k

def Db.Task (db : Db) (k e : Id) (row : ExecutionRow) (j : Id) (job : JobRow) : Prop :=
  db.ExecutionOf j e row ∧ db.Member k j job

/-- The members of a collection have the numbers below their count. -/
structure Db.Numbered (db : Db) (k : Id) : Prop where
  index : ∀ j job, db.Member k j job →
    ∃ i, job.grouping.collectionIndex = some i ∧ i < db.memberCount k
  distinct : ∀ j j' job job', db.Member k j job → db.Member k j' job' →
    job.grouping.collectionIndex = job'.grouping.collectionIndex → j = j'

/-- A member at the place, and with the resources, of all members. -/
structure JobRow.At (job : JobRow) (codec : Codec) (db : Db) (generationId : Id)
    (partition : Option String) (resources : String) : Prop where
  inGeneration : job.targetGenerationId = generationId
  inPartition : job.placementPartition = partition
  slurm : ∃ generation, db.generations.get? generationId = some generation ∧
    generation.executionBackend = .slurm
  requests : ∃ workload, db.workloads.get? (job.namespaceId, job.workloadDigest) = some workload ∧
    codec.resources workload.document = some resources

/-- An execution is bound as the task of its job. -/
structure ExecutionRow.Tasked (row : ExecutionRow) (codec : Codec) (db : Db) (k : Id)
    (maxActive : Nat) (e : Id) (job : JobRow) (c : AssignmentCandidate) : Prop where
  built : row.BuiltFrom codec e c
  binding : ∃ i, job.grouping.collectionIndex = some i ∧
    c.slurmArray = some ⟨some k, (i : Int), db.memberCount k, maxActive⟩
  agentId : c.agentId = row.agentId
  generationId : c.targetGenerationId = row.targetGenerationId ∧
    row.targetGenerationId = job.targetGenerationId
  partition : c.partition = job.placementPartition.getD ""

/-- The members and executions of one collection. -/
structure Db.Whole (db : Db) (codec : Codec) (k : Id) (collection : CollectionRow) : Prop where
  numbered : db.Numbered k
  placed : collection.arrayMode = .slurmArray → ∃ generationId partition resources,
    ∀ j job, db.Member k j job → job.At codec db generationId partition resources
  tasked : collection.arrayMode = .slurmArray → ∀ e row j job, db.Task k e row j job →
    ∃ c, row.Tasked codec db k collection.maxActive e job c
  agent : collection.arrayMode = .slurmArray → ∀ e e' row row' j j' job job',
    db.Task k e row j job → db.Task k e' row' j' job' → row.agentId = row'.agentId

def Db.Arrays (db : Db) (codec : Codec) : Prop :=
  ∀ k collection, db.collections.get? k = some collection → db.Whole codec k collection

theorem JobRow.Keeps.collectionId {row row' : JobRow} (h : row.Keeps row') :
    row'.grouping.collectionId = row.grouping.collectionId :=
  congrArg JobIdentity.collectionId h.identity

theorem JobRow.Keeps.collectionIndex {row row' : JobRow} (h : row.Keeps row') :
    row'.grouping.collectionIndex = row.grouping.collectionIndex :=
  congrArg JobPlacement.collectionIndex h.placement

theorem Db.Preserves.member (h : db.Preserves db') (hmember : db.Member k j job) :
    ∃ job', db'.Member k j job' ∧ job.Keeps job' := by
  obtain ⟨job', hjob', hkeeps⟩ := h.job j job hmember.1
  exact ⟨job', ⟨hjob', hkeeps.collectionId.trans hmember.2⟩, hkeeps⟩

/-- No job joins the collection. -/
structure Db.SameMembers (db db' : Db) (k : Id) : Prop where
  preserves : db.Preserves db'
  old : ∀ j job', db'.Member k j job' → db.jobs.get? j ≠ none

namespace Db.SameMembers

theorem origin (h : db.SameMembers db' k) (hmember : db'.Member k j job') :
    ∃ job, db.Member k j job ∧ job.Keeps job' := by
  obtain ⟨job, hjob⟩ := Option.ne_none_iff_exists'.mp (h.old j job' hmember)
  obtain ⟨new, hnew, hkeeps⟩ := h.preserves.job j job hjob
  cases hnew.symm.trans hmember.1
  exact ⟨job, ⟨hjob, hkeeps.collectionId.symm.trans hmember.2⟩, hkeeps⟩

theorem memberCount (h : db.SameMembers db' k) : db'.memberCount k = db.memberCount k := by
  refine le_antisymm (Table.count_le_count ?_) (Table.count_le_count ?_)
  · intro j job' hjob' hin
    obtain ⟨job, hmember, -⟩ := h.origin ⟨hjob', of_decide_eq_true hin⟩
    exact ⟨job, hmember.1, decide_eq_true hmember.2⟩
  · intro j job hjob hin
    obtain ⟨job', hmember, -⟩ := h.preserves.member ⟨hjob, of_decide_eq_true hin⟩
    exact ⟨job', hmember.1, decide_eq_true hmember.2⟩

theorem numbered (h : db.SameMembers db' k) (hnumbered : db.Numbered k) : db'.Numbered k := by
  refine ⟨fun j job' hmember => ?_, fun j₁ j₂ job₁ job₂ hmember₁ hmember₂ hsame => ?_⟩
  · obtain ⟨job, hold, hkeeps⟩ := h.origin hmember
    rw [hkeeps.collectionIndex, h.memberCount]
    exact hnumbered.index j job hold
  · obtain ⟨old₁, hold₁, hkeeps₁⟩ := h.origin hmember₁
    obtain ⟨old₂, hold₂, hkeeps₂⟩ := h.origin hmember₂
    rw [hkeeps₁.collectionIndex, hkeeps₂.collectionIndex] at hsame
    exact hnumbered.distinct j₁ j₂ old₁ old₂ hold₁ hold₂ hsame

end Db.SameMembers

theorem JobRow.At.kept {generationId : Id} {partition : Option String} {resources : String}
    (h : job.At codec db generationId partition resources) (hpreserves : db.Preserves db')
    (hkeeps : job.Keeps job') : job'.At codec db' generationId partition resources := by
  obtain ⟨hnamespace, hgeneration', hpartition, hdigest⟩ := hkeeps.columns
  obtain ⟨generation, hgeneration, hslurm⟩ := h.slurm
  obtain ⟨workload, hworkload, hresources⟩ := h.requests
  refine ⟨hgeneration'.trans h.inGeneration, hpartition.trans h.inPartition,
    ⟨generation, hpreserves.generation _ _ hgeneration, hslurm⟩, workload, ?_, hresources⟩
  rw [hnamespace, hdigest]
  exact hpreserves.workload _ _ hworkload

theorem ExecutionRow.Tasked.kept {row' : ExecutionRow} {maxActive : Nat}
    (h : row.Tasked codec db k maxActive e job c) (hsame : db.SameMembers db' k)
    (hcolumns : row'.columns = row.columns) (hkeeps : job.Keeps job') :
    row'.Tasked codec db' k maxActive e job' c := by
  simp only [ExecutionRow.columns, Prod.mk.injEq] at hcolumns
  obtain ⟨-, hrun, hagent, -, hgeneration, -, hspec⟩ := hcolumns
  obtain ⟨-, hgeneration', hpartition, -⟩ := hkeeps.columns
  obtain ⟨deliveryId, document, digest, hbuilt, hdocument⟩ := h.built
  obtain ⟨i, hi, hbinding⟩ := h.binding
  refine ⟨⟨deliveryId, document, digest, hrun ▸ hbuilt, hspec.trans hdocument⟩,
    ⟨i, hkeeps.collectionIndex.trans hi, ?_⟩, h.agentId.trans hagent.symm, ?_, ?_⟩
  · rw [hsame.memberCount]
    exact hbinding
  · rw [hgeneration, hgeneration']
    exact h.generationId
  · rw [hpartition]
    exact h.partition

theorem Db.SameMembers.task (h : db.SameMembers db' k) (hs : Sound db.board) {row' : ExecutionRow}
    (htask : db'.Task k e row' j job') (hold : db.executions.get? e ≠ none) :
    ∃ row job, db.Task k e row j job ∧ row'.columns = row.columns ∧ job.Keeps job' := by
  obtain ⟨row, hrow⟩ := Option.ne_none_iff_exists'.mp hold
  obtain ⟨⟨hrow', run', hrun', hrunJob⟩, hmember⟩ := htask
  obtain ⟨new, hnew, hcolumns⟩ := h.preserves.columns e row hrow
  cases hnew.symm.trans hrow'
  obtain ⟨job, hjob, hkeeps⟩ := h.origin hmember
  obtain ⟨j₀, J, R, a, A, hbundle⟩ := hs.coupled.linked.bundle_of_execution
    (Db.board_execution hrow)
  obtain ⟨run, hrun, hfacts⟩ := Db.board_run_eq_some.mp hbundle.run
  obtain ⟨run₁, hrun₁, hidentity⟩ := h.preserves.run _ run hrun
  have hrunId : row'.runId = row.runId := by
    simp only [ExecutionRow.columns, Prod.mk.injEq] at hcolumns
    exact hcolumns.2.1
  rw [hrunId] at hrun'
  cases hrun₁.symm.trans hrun'
  exact ⟨row, job, ⟨⟨hrow, run, hrun, (congrArg RunIdentity.jobId hidentity).symm.trans hrunJob⟩,
    hjob⟩, hcolumns, hkeeps⟩

/-- The new tasks of an array are bound like the others. -/
def Db.BindsTasks (codec : Codec) (db db' : Db) (k : Id) (maxActive : Nat) : Prop :=
  ∀ e row j job, db'.Task k e row j job → db.executions.get? e = none →
    (∃ c, row.Tasked codec db' k maxActive e job c) ∧
    (∀ e' row' j' job', db'.Task k e' row' j' job' → db.executions.get? e' = none →
      row.agentId = row'.agentId) ∧
    ∀ e' row' j' job', db.Task k e' row' j' job' → row.agentId = row'.agentId

/-- A collection that no job joins stays whole. -/
theorem Db.Whole.kept {collection : CollectionRow} (h : db.Whole codec k collection)
    (hs : Sound db.board) (hsame : db.SameMembers db' k)
    (hlimit : collection'.limit = collection.limit)
    (hnew : collection.arrayMode = .slurmArray → db.BindsTasks codec db' k collection.maxActive) :
    db'.Whole codec k collection' := by
  obtain ⟨hmax, hmode⟩ : collection'.maxActive = collection.maxActive ∧
      collection'.arrayMode = collection.arrayMode := by
    simpa only [CollectionRow.limit, CollectionLimit.mk.injEq] using hlimit
  refine ⟨hsame.numbered h.numbered, ?_, ?_, ?_⟩
  · rw [hmode]
    intro harray
    obtain ⟨generationId, partition, resources, hplaced⟩ := h.placed harray
    refine ⟨generationId, partition, resources, fun j job' hmember => ?_⟩
    obtain ⟨job, hold, hkeeps⟩ := hsame.origin hmember
    exact (hplaced j job hold).kept hsame.preserves hkeeps
  · rw [hmode, hmax]
    intro harray e row j job htask
    by_cases hold : db.executions.get? e = none
    · exact (hnew harray e row j job htask hold).1
    · obtain ⟨row₀, job₀, htask₀, hcolumns, hkeeps⟩ := hsame.task hs htask hold
      obtain ⟨c, hc⟩ := h.tasked harray e row₀ j job₀ htask₀
      exact ⟨c, hc.kept hsame hcolumns hkeeps⟩
  · rw [hmode]
    intro harray e e' row row' j j' job job' htask htask'
    have hagent : ∀ {x y : ExecutionRow}, x.columns = y.columns → x.agentId = y.agentId := by
      intro x y hxy
      simp only [ExecutionRow.columns, Prod.mk.injEq] at hxy
      exact hxy.2.2.1
    by_cases hold : db.executions.get? e = none
    · obtain ⟨-, hboth, hone⟩ := hnew harray e row j job htask hold
      by_cases hold' : db.executions.get? e' = none
      · exact hboth e' row' j' job' htask' hold'
      · obtain ⟨row₀, job₀, htask₀, hcolumns, -⟩ := hsame.task hs htask' hold'
        exact (hone e' row₀ j' job₀ htask₀).trans (hagent hcolumns).symm
    · obtain ⟨row₀, job₀, htask₀, hcolumns, -⟩ := hsame.task hs htask hold
      by_cases hold' : db.executions.get? e' = none
      · obtain ⟨-, -, hone⟩ := hnew harray e' row' j' job' htask' hold'
        exact (hagent hcolumns).trans (hone e row₀ j job₀ htask₀).symm
      · obtain ⟨row₀', job₀', htask₀', hcolumns', -⟩ := hsame.task hs htask' hold'
        rw [hagent hcolumns, hagent hcolumns']
        exact h.agent harray e e' row₀ row₀' j j' job₀ job₀' htask₀ htask₀'

theorem Db.Whole.vacant {collection : CollectionRow} (h : ∀ j job, ¬db.Member k j job) :
    db.Whole codec k collection := by
  refine ⟨⟨fun j job hm => absurd hm (h j job), fun j _ job _ hm => absurd hm (h j job)⟩,
    fun _ => ⟨0, none, "", fun j job hm => absurd hm (h j job)⟩,
    fun _ _ _ j job ht => absurd ht.2 (h j job),
    fun _ _ _ _ _ j _ job _ ht => absurd ht.2 (h j job)⟩

/-- Documents that are stored as the same one request the same resources. -/
def Codec.RequestsEqually (codec : Codec) : Prop :=
  ∀ document document', codec.sameDocument document document' = true →
    codec.resources document = codec.resources document'

theorem Db.Member.housed (h : db.Member k j job) (hs : Sound db.board) :
    db.collections.get? k ≠ none := by
  obtain ⟨limit, hlimit⟩ := hs.wired.housed j job.facts k
    (Db.board_job h.1) h.2
  intro hnone
  simp [Db.board, hnone] at hlimit

theorem Db.Arrays.kept_at (h : db.Arrays codec) (hs : Sound db.board)
    (hrow' : db'.collections.get? k = some collection')
    (hlimit : ∀ limit, db.board.collection k = some limit → db'.board.collection k = some limit)
    (hsame : db.SameMembers db' k) (hnew : ∀ collection, db.collections.get? k = some collection →
      collection.arrayMode = .slurmArray → db.BindsTasks codec db' k collection.maxActive) :
    db'.Whole codec k collection' := by
  cases hrow : db.collections.get? k with
  | none =>
      refine .vacant fun j job' hmember => ?_
      obtain ⟨job, hold, -⟩ := hsame.origin hmember
      exact hold.housed hs hrow
  | some collection =>
      have hkept := hlimit collection.limit (by simp [Db.board, hrow])
      simp only [Db.board, hrow', Option.map_some, Option.some.injEq] at hkept
      exact (h k collection hrow).kept hs hsame hkept (hnew collection hrow)

/-- The agent that a dispatch finds is that of an execution of the array, if it has one. -/
theorem Db.Task.arrayAgent (h : db.Task k e row j job) :
    ∃ e' row' j' job', db.Task k e' row' j' job' ∧ db.arrayAgent k = some row'.agentId := by
  obtain ⟨⟨hrow, run, hrun, rfl⟩, hjob, hin⟩ := h
  cases hagent : db.arrayAgent k with
  | none =>
      rw [Db.arrayAgent, Option.map_eq_none_iff, firstBy_eq_none_iff] at hagent
      refine absurd ((Table.mem_select _ _ e row).mpr ⟨hrow, ?_⟩)
        (List.eq_nil_iff_forall_not_mem.mp hagent (e, row))
      simp only [hrun, hjob, hin, decide_true]
  | some first =>
      obtain ⟨⟨e', row'⟩, hfirst, rfl⟩ := Option.map_eq_some_iff.mp hagent
      obtain ⟨hrow', hin'⟩ := (Table.mem_select _ _ _ _).mp (firstBy_mem hfirst)
      split at hin'
      · cases hin'
      rename_i run' hrun'
      split at hin'
      · cases hin'
      rename_i job' hjob'
      exact ⟨e', row', run'.jobId, job', ⟨⟨hrow', run', hrun', rfl⟩, hjob',
        of_decide_eq_true hin'⟩, rfl⟩

theorem Db.Arrays.dispatch (h : db.Arrays codec) (hs : Sound db.board) {ids : DispatchIds}
    {policy : PolicyRow} {target : TargetRow} {generation : GenerationRow} {workload : WorkloadRow}
    {agent : AgentRow} (hchosen : c.Chosen codec env db job policy target generation workload agent)
    (hdispatches : Dispatches codec env ids c job db db') :
    db'.Arrays codec := by
  have hpreserves := hdispatches.preserves hchosen.jobRow
  have hcollections : db'.collections = db.collections := by
    obtain ⟨_, _, _, _, _, _, _, rfl⟩ := hdispatches.rest
    rfl
  obtain ⟨row, hidentity, hbuilt, -, hexecutions⟩ := hdispatches.execution
  obtain ⟨job', hkeeps, -, hjobs⟩ := hdispatches.job
  intro k collection' hrow'
  have hsame : db.SameMembers db' k := by
    refine ⟨hpreserves, fun j job'' hmember hnone => ?_⟩
    have hjob := hmember.1
    rw [hjobs] at hjob
    split at hjob
    · rename_i hj
      cases hnone.symm.trans (hj ▸ hchosen.jobRow)
    · cases hnone.symm.trans hjob
  refine h.kept_at hs hrow'
    (fun limit hlimit => by simpa only [Db.board, hcollections] using hlimit) hsame ?_
  intro collection hrow harray e row₁ j job₁ htask hnone
  -- The only new execution is that of the candidate.
  have honly : ∀ e' row', db'.executions.get? e' = some row' → db.executions.get? e' = none →
      e' = ids.executionId ∧ row' = row := by
    intro e' row' hget hnew
    rw [hexecutions] at hget
    split at hget
    · rename_i he
      exact ⟨he, (Option.some.inj hget).symm⟩
    · cases hnew.symm.trans hget
  obtain ⟨rfl, rfl⟩ := honly e row₁ htask.1.1 hnone
  simp only [ExecutionRow.identity, ExecutionIdentity.mk.injEq] at hidentity
  obtain ⟨-, hrunId, hagentId, -, hgenerationId⟩ := hidentity
  obtain ⟨⟨-, run, hrun, hrunJob⟩, hjob₁, hin₁⟩ := htask
  rw [hrunId, hdispatches.run, if_pos rfl] at hrun
  cases hrun
  obtain rfl : c.jobId = j := hrunJob
  rw [hjobs, if_pos rfl] at hjob₁
  cases hjob₁
  have hin : job.grouping.collectionId = some k := hkeeps.collectionId.symm.trans hin₁
  have hmember : db.Member k c.jobId job := ⟨hchosen.jobRow, hin⟩
  obtain ⟨hcount, hmode, hmax⟩ := hchosen.collection k collection hin hrow
  obtain ⟨i, hindex, -⟩ := (h k collection hrow).numbered.index c.jobId job hmember
  refine ⟨⟨c, hbuilt, ⟨i, hkeeps.collectionIndex.trans hindex, ?_⟩, hagentId.symm,
    ⟨hgenerationId.symm, ?_⟩, ?_⟩,
    fun e' row' _ _ htask' hnone' => ?_, fun e' row' j' job'' htask' => ?_⟩
  · rw [AssignmentCandidate.slurmArray, hmode, harray, if_pos rfl, hchosen.collectionId, hin,
      hchosen.collectionIndex, hindex, hcount, hmax, hsame.memberCount]
    rfl
  · rw [hgenerationId, hchosen.targetGenerationId]
    exact hkeeps.columns.2.1.symm
  · rw [hchosen.partition]
    exact congrArg (fun p => p.getD "") hkeeps.columns.2.2.1.symm
  · rw [(honly e' row' htask'.1.1 hnone').2]
  · obtain ⟨e₀, row₀, j₀, job₀, htask₀, hfirst⟩ := htask'.arrayAgent
    rw [hagentId, hchosen.serves.bound k collection hin hrow harray _ hfirst]
    exact (h k collection hrow).agent harray e₀ e' row₀ row' j₀ j' job₀ job'' htask₀ htask'

theorem Apart.arrays {scheme : TokenScheme} (hapart : Apart scheme env db db')
    (hpreserves : db.Preserves db') (hs : Sound db.board) (h : db.Arrays codec) :
    db'.Arrays codec := by
  have hjobs : db'.jobs = db.jobs := congrArg WorkTables.jobs hapart.work
  have hexecutions : db'.executions = db.executions := congrArg WorkTables.executions hapart.work
  have hcollections : db'.collections = db.collections :=
    congrArg WorkTables.collections hapart.work
  intro k collection' hrow'
  refine h.kept_at hs hrow'
    (fun limit hlimit => by simpa only [Db.board, hcollections] using hlimit)
    ⟨hpreserves, fun j job' hmember hnone => ?_⟩ fun collection _ _ e row j job htask hnone => ?_
  · cases hnone.symm.trans (hjobs ▸ hmember.1)
  · cases hnone.symm.trans (hexecutions ▸ htask.1.1)

theorem Settled.no_execution (h : Settled codec asked db db') (hs : Sound db.board)
    (hnone : db.jobs.get? j = none) : ¬db'.ExecutionOf j e row := by
  rintro ⟨hrow, run', hrun', rfl⟩
  obtain ⟨run, hrun, hidentity⟩ := kept_of_view RunRow.identity (h.run row.runId).symm hrun'
  have hjobId : run.jobId = run'.jobId := congrArg RunIdentity.jobId hidentity
  obtain ⟨J, _, _, _, _, hbundle⟩ := bundle_of_runOf hs.coupled ⟨hrun, hjobId⟩
  obtain ⟨job, hjob, -⟩ := Db.board_job_eq_some.mp hbundle.job
  cases hnone.symm.trans hjob

theorem Settled.arrays (hsettled : Settled codec asked db db') (hs : Sound db.board)
    (h : db.Arrays codec) (hlimit : ∀ k limit, db.board.collection k = some limit →
      db'.board.collection k = some limit)
    (hjoin : ∀ j job', db'.Member k j job' → db.jobs.get? j ≠ none)
    (hrow' : db'.collections.get? k = some collection') : db'.Whole codec k collection' := by
  refine h.kept_at hs hrow' (hlimit k) ⟨hsettled.preserves, hjoin⟩
    fun collection _ _ e row j job htask hnone => ?_
  have hview := hsettled.columns e
  rw [htask.1.1, hnone] at hview
  cases hview

namespace CollectionAccepted

variable (h : CollectionAccepted codec env granted ids submission placements db db')

include h

theorem length_placements :
    placements.length = submission.items.length :=
  mapM_ok_length _ h.placed

theorem member_iff (hs : Sound db.board) :
    db'.Member ids.groupId j job ↔ ∃ i item placement, submission.items[i]? = some item ∧
      placements[i]? = some placement ∧ j = ids.jobId i ∧
      job = memberRow env granted ids item placement i := by
  have hlength := h.length_placements
  constructor
  · intro hmember
    by_cases hlisted : ∃ i, i < submission.items.length ∧ j = ids.jobId i
    · obtain ⟨i, hi, rfl⟩ := hlisted
      have hitem := List.getElem?_eq_getElem hi
      have hplacement := List.getElem?_eq_getElem (hlength ▸ hi)
      refine ⟨i, _, _, hitem, hplacement, rfl, ?_⟩
      exact Option.some.inj (hmember.1.symm.trans (h.member i _ _ hitem hplacement))
    · have hkept := h.kept j fun i hi hj => hlisted ⟨i, hi, hj⟩
      have hold : db.Member ids.groupId j job := ⟨hkept.symm.trans hmember.1, hmember.2⟩
      exact absurd h.fresh (hold.housed hs)
  · rintro ⟨i, item, placement, hitem, hplacement, rfl, rfl⟩
    exact ⟨h.member i item placement hitem hplacement, rfl⟩

theorem memberCount (hs : Sound db.board) :
    db'.memberCount ids.groupId = submission.items.length := by
  have hlength := h.length_placements
  rw [Db.memberCount,
    Table.count_eq_length (l := (List.range submission.items.length).map ids.jobId)]
  · rw [List.length_map, List.length_range]
  · refine List.Nodup.map_on ?_ List.nodup_range
    intro i hi k hk hsame
    exact h.distinct i k (List.mem_range.mp hi) (List.mem_range.mp hk) hsame
  · intro j
    simp only [List.mem_map, List.mem_range, decide_eq_true_eq]
    constructor
    · rintro ⟨i, hi, rfl⟩
      exact ⟨_, (h.member_iff hs).mpr ⟨i, _, _, List.getElem?_eq_getElem hi,
        List.getElem?_eq_getElem (hlength ▸ hi), rfl, rfl⟩⟩
    · rintro ⟨job, hmember⟩
      obtain ⟨i, item, placement, hitem, -, rfl, -⟩ := (h.member_iff hs).mp hmember
      exact ⟨i, (List.getElem?_eq_some_iff.mp hitem).1, rfl⟩

theorem numbered (hs : Sound db.board) : db'.Numbered ids.groupId := by
  refine ⟨fun j job hmember => ?_, fun j j' job job' hmember hmember' hsame => ?_⟩
  · obtain ⟨i, item, placement, hitem, -, rfl, rfl⟩ := (h.member_iff hs).mp hmember
    exact ⟨i, rfl, by rw [h.memberCount hs]; exact (List.getElem?_eq_some_iff.mp hitem).1⟩
  · obtain ⟨i, _, _, -, -, rfl, rfl⟩ := (h.member_iff hs).mp hmember
    obtain ⟨i', _, _, -, -, rfl, rfl⟩ := (h.member_iff hs).mp hmember'
    cases hsame
    rfl

theorem at_place (hs : Sound db.board) (hcodec : codec.RequestsEqually)
    (hsettled : Settled codec asked db db') (hasked : ∀ item grouping, asked item grouping →
      ∃ i, submission.items[i]? = some item ∧ grouping = .collection ids.groupId i)
    (halike : Alike codec placements submission.items) :
    ∃ generationId partition resources, ∀ j job, db'.Member ids.groupId j job →
      job.At codec db' generationId partition resources := by
  have hlength := h.length_placements
  obtain ⟨encoded, hencoded⟩ := halike.resources
  have hfirst : 0 < placements.length := by
    rw [hlength]
    exact lt_of_lt_of_le (by decide) halike.several
  refine ⟨placements[0].targetGenerationId,
    if placements[0].partition = "" then none else some placements[0].partition, encoded, ?_⟩
  intro j job hmember
  obtain ⟨i, item, placement, hitem, hplacement, rfl, rfl⟩ := (h.member_iff hs).mp hmember
  have hmem : placement ∈ placements := List.mem_of_getElem? hplacement
  have hmem₀ : placements[0] ∈ placements := List.getElem_mem hfirst
  have hgeneration := halike.generation placement hmem _ hmem₀
  obtain ⟨-, hfound⟩ := placements_found h.placed (List.mk_mem_zipIdx_iff_getElem?.mpr
    (List.getElem?_zip_eq_some.mpr ⟨hitem, hplacement⟩))
  obtain ⟨generation, hrow, hbackend, -⟩ := hfound.generation
  refine ⟨hgeneration, ?_, ⟨generation, ?_, hbackend.trans (halike.slurm placement hmem)⟩, ?_⟩
  · rw [← halike.partition placement hmem _ hmem₀]
    rfl
  · rw [← hgeneration]
    exact hsettled.preserves.generation _ _ hrow
  · have hi := (List.getElem?_eq_some_iff.mp hitem).1
    obtain ⟨item', grouping, hitem', -, hindex, hplaced⟩ :=
      hsettled.admitted _ _ hmember.1 (h.free i hi)
    obtain ⟨i', hget, rfl⟩ := hasked item' grouping hitem'
    obtain rfl : i' = i := Option.some.inj hindex
    cases hget.symm.trans hitem
    obtain ⟨workload, hworkload, hsame⟩ := hplaced.workload
    refine ⟨workload, hworkload, ?_⟩
    rw [← hencoded item (List.mem_of_getElem? hitem)]
    obtain hsame | hsame := hsame
    · rw [hsame]
    · exact hcodec _ _ hsame

theorem whole (hs : Sound db.board) (hcodec : codec.RequestsEqually)
    (hsettled : Settled codec asked db db') (hasked : ∀ item grouping, asked item grouping →
      ∃ i, submission.items[i]? = some item ∧ grouping = .collection ids.groupId i)
    {collection : CollectionRow} (hrow : db'.collections.get? ids.groupId = some collection) :
    db'.Whole codec ids.groupId collection := by
  have hno : ∀ e row j job, ¬db'.Task ids.groupId e row j job := by
    intro e row j job htask
    obtain ⟨i, item, placement, hitem, -, rfl, -⟩ := (h.member_iff hs).mp htask.2
    exact hsettled.no_execution hs (h.free i (List.getElem?_eq_some_iff.mp hitem).1) htask.1
  refine ⟨h.numbered hs, fun harray => ?_,
    fun _ e row j job htask => absurd htask (hno e row j job),
    fun _ e _ row _ j _ job _ htask => absurd htask (hno e row j job)⟩
  obtain ⟨row, hget, hmode⟩ := h.collection
  cases hget.symm.trans hrow
  rw [harray] at hmode
  exact h.at_place hs hcodec hsettled hasked
    ((resolveCollectionArrayMode_ok hmode h.length_placements).1.mp rfl).2

end CollectionAccepted

theorem Db.Arrays.submitCollection (h : db.Arrays codec) (hs : Sound db.board)
    (hcodec : codec.RequestsEqually) {authorization : Except StoreError Authorization}
    (hsettled : Settled codec (Operation.submitCollection authorization key ids submission).asks db
      ((Operation.submitCollection authorization key ids submission).apply codec env db))
    (hlimit : ∀ k limit, db.board.collection k = some limit →
      ((Operation.submitCollection authorization key ids submission).apply codec
        env db).board.collection k = some limit) :
    ((Operation.submitCollection authorization key ids submission).apply codec env db).Arrays
      codec := by
  intro k collection' hrow'
  obtain ⟨result, hok⟩ | hsame := atomically_cases
    (JobmanControl.submitCollection codec env queuedJobs authorization key ids submission) db
  · obtain ⟨-, hjobs⟩ | ⟨-, granted, placements, -, haccepted⟩ := submitCollection_cases hok
    · refine hsettled.arrays hs h hlimit (fun j job' hmember hnone => ?_) hrow'
      cases hnone.symm.trans (hjobs ▸ hmember.1)
    · by_cases hk : k = ids.groupId
      · subst hk
        exact haccepted.whole hs hcodec hsettled (fun _ _ hasks => hasks) hrow'
      · refine hsettled.arrays hs h hlimit (fun j job' hmember hnone => ?_) hrow'
        -- A job that is new is a member of the submitted collection.
        obtain ⟨item, grouping, ⟨i, -, rfl⟩, hcollection, -⟩ :=
          hsettled.admitted j job' hmember.1 hnone
        exact hk (Option.some.inj (hmember.2.symm.trans hcollection.symm))
  · refine hsettled.arrays hs h hlimit (fun j job' hmember hnone => ?_) hrow'
    have hjob := hmember.1
    rw [show (Operation.submitCollection authorization key ids submission).apply codec env db = db
      from hsame] at hjob
    cases hnone.symm.trans hjob

theorem Operation.asks_collection {operation : Operation} {item : JobSubmission}
    {grouping : Grouping} (h : operation.asks item grouping) (hk : grouping.collectionId = some k) :
    ∃ authorization key ids submission,
      operation = .submitCollection authorization key ids submission := by
  cases operation with
  | submitCollection authorization key ids submission =>
      exact ⟨authorization, key, ids, submission, rfl⟩
  | submitJob | importCompletedHistory =>
      obtain ⟨-, rfl⟩ := h
      cases hk
  | submitGraph =>
      obtain ⟨_, -, rfl⟩ := h
      cases hk
  | _ => exact h.elim

theorem ServiceCall.arrays (call : ServiceCall) (hcodec : platform.codec.RequestsEqually)
    (hs : Sound db.board) (h : db.Arrays platform.codec) :
    (call.apply platform db).Arrays platform.codec := by
  have hlimit : ∀ k limit, db.board.collection k = some limit →
      (call.apply platform db).board.collection k = some limit :=
    fun _ _ => call.persists_collection platform hs
  obtain ⟨operation, hoperation, hsettled⟩ | ⟨ids, c, job, _, _, _, _, _, hchosen,
    hdispatches⟩ | hapart := call.apply_cases platform db
  · have happly : call.apply platform db = operation.apply platform.codec call.env db := by
      rw [ServiceCall.apply, hoperation]
    rw [happly] at hsettled hlimit ⊢
    by_cases hcollection : ∃ authorization key ids submission,
        operation = .submitCollection authorization key ids submission
    · obtain ⟨authorization, key, ids, submission, rfl⟩ := hcollection
      exact h.submitCollection hs hcodec hsettled hlimit
    · intro k collection' hrow'
      refine hsettled.arrays hs h hlimit (fun j job' hmember hnone => ?_) hrow'
      obtain ⟨item, grouping, hasks, hin, -⟩ := hsettled.admitted j job' hmember.1 hnone
      exact hcollection (operation.asks_collection hasks (hin.trans hmember.2))
  · exact h.dispatch hs hchosen hdispatches
  · exact hapart.arrays (call.preserves platform db) hs h

namespace Service

theorem Arises.arrays (hcodec : platform.codec.RequestsEqually) (h : Arises platform db) :
    db.Arrays platform.codec := by
  refine (h.invariant (P := fun d => Sound d.board ∧ d.Arrays platform.codec)
    ⟨sound_empty, fun _ _ hrow => by cases hrow⟩ ?_).2
  rintro d call _ ⟨hs, harrays⟩ - rfl
  exact ⟨call.sound platform hs, call.arrays hcodec hs harrays⟩

theorem Later.collection (hs : Sound db.board) (h : Later platform db db') {limit : CollectionLimit}
    (hlimit : db.board.collection k = some limit) :
    db'.board.collection k = some limit := by
  refine (h.invariant (P := fun d => Sound d.board ∧ d.board.collection k = some limit)
    ⟨hs, hlimit⟩ ?_).2
  rintro d call _ ⟨hs, hlimit⟩ - rfl
  exact ⟨call.sound platform hs, call.persists_collection platform hs hlimit⟩

end Service

namespace Sample

end Sample

end JobmanControl
