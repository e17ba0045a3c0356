import JobmanControl.Store.Service

/-!
The catalog of targets over whole runs of the service. Every call either leaves the
catalog as it is or makes one of four steps on it; the invariant says that names are
taken once in a namespace and that a target's generations are numbered from one up to
its current one.
-/

namespace JobmanControl

open Relational

variable {platform : Platform} {env : Env} {db db' : Db}

variable {namespaceId t g : Id} {name : String} {row : TargetRow} {new : GenerationRow}
  {generations : Table Id GenerationRow}

theorem catalogFootprint (codec : Codec) (env : Env) (asked : JobSubmission → Grouping → Prop) :
    CallFootprint codec env asked fun db db' => db'.catalog = db.catalog where
  refl _ := rfl
  trans h h' := h'.trans h
  updateJob _ h := by
    obtain ⟨jobs, outbox, rfl⟩ := Db.updateJob_eq h
    rfl
  updateRun _ h := by
    obtain ⟨runs, rfl⟩ := Db.updateRun_eq h
    rfl
  insertOutbox h _ := by
    obtain ⟨outbox, rfl⟩ := insertOutbox_ok h
    rfl
  insertWorkload _ := rfl
  insertCollection _ := rfl
  insertGraph _ := rfl
  touchCollection _ _ := rfl
  touchGraph _ _ := rfl
  insertJob _ _ _ := rfl
  insertItem _ _ := rfl
  insertNode _ _ _ := rfl
  insertRun _ _ := rfl
  insertExecution _ _ := rfl
  insertAssignment _ _ := rfl
  touchPolicy _ _ := rfl
  updateExecutions _ := rfl
  updateAssignments _ := rfl
  elsewhere h := congrArg WatchedTables.catalog h
  writeKeys := rfl

theorem Operation.apply_catalog (codec : Codec) (env : Env) (operation : Operation) (db : Db) :
    (operation.apply codec env db).catalog = db.catalog := by
  have hreport : ReportFootprint codec env fun db db' => db'.catalog = db.catalog :=
    { (catalogFootprint codec env fun _ _ => False).toWorkFootprint with
      writeEvents := rfl, writeArtifacts := rfl, reportExecution := fun _ => rfl }
  have hcall : ∀ op : Operation, (∀ configuration, op ≠ .configure configuration) →
      (Call.apply codec ⟨env, op⟩ db).catalog = db.catalog := fun op hop =>
    Call.apply_footprint ⟨env, op⟩ (catalogFootprint codec env _) db
      (fun configuration h => absurd h (hop configuration))
      fun _ _ _ _ h => hreport.recordExecutionEvent h
  cases operation with
  | configure configuration => rfl
  | _ => exact hcall _ fun _ h => by cases h

/-- Every call is one of the steps on the catalog. -/
theorem ServiceCall.catalogStep (call : ServiceCall) (platform : Platform) (db : Db) :
    CatalogStep call.env db (call.apply platform db) := by
  obtain ⟨operation, -, hwork⟩ | heffect := call.apply_effect platform db
  · rw [hwork]
    exact .same (operation.apply_catalog platform.codec call.env db)
  generalize call.apply platform db = db' at heffect
  cases heffect with
  | cataloged hstep => exact hstep
  | enrolled h =>
      obtain rfl | ⟨binding, henrolling⟩ := enrollAgent_writes h
      · exact .same rfl
      · obtain ⟨_, _, _, _, rfl⟩ := henrolling.rest
        exact .same rfl
  | credentialed operation hop =>
      obtain ⟨_, _, _, _, _, _, _, hrest⟩ :=
        (operation.apply_credentials platform call.env db hop).rest
      exact .same ((congrArg Db.catalog hrest).trans rfl)
  | refused | administered | delivered | logged | acted | maintained => exact .same rfl

/-- A target's current generation, and the numbers of all its generations: one up to the
current one. -/
structure CurrentGeneration (db : Db) (targetId : Id) (row : TargetRow) (generationId : Id)
    (generation : GenerationRow) : Prop where
  selected : row.currentGenerationId = some generationId
  stored : db.generations.get? generationId = some generation
  target : generation.targetId = targetId
  numbered : ∀ n, (∃ g other, db.generations.get? g = some other ∧ other.targetId = targetId ∧
    other.generation = n) ↔ 1 ≤ n ∧ n ≤ generation.generation

/-- The catalog is consistent. -/
structure Db.Cataloged (db : Db) : Prop where
  housed : ∀ t row, db.targets.get? t = some row →
    ∃ name, db.namespaces.get? row.namespaceId = some name
  named : ∀ t t' row row', db.targets.get? t = some row → db.targets.get? t' = some row' →
    row.namespaceId = row'.namespaceId → row.name = row'.name → t = t'
  current : ∀ t row, db.targets.get? t = some row →
    ∃ g generation, CurrentGeneration db t row g generation
  owned : ∀ g generation, db.generations.get? g = some generation →
    ∃ row, db.targets.get? generation.targetId = some row
  parted : ∀ p partition, db.partitions.get? p = some partition →
    ∃ generation, db.generations.get? partition.targetGenerationId = some generation

/-- What a step leaves of the row of a target. -/
structure TargetRow.Follows (row row' : TargetRow) : Prop where
  namespaceId : row'.namespaceId = row.namespaceId
  name : row'.name = row.name
  kind : row'.kind = row.kind
  revision : row.revision ≤ row'.revision

theorem TargetRow.Follows.refl (row : TargetRow) : row.Follows row :=
  ⟨rfl, rfl, rfl, Nat.le_refl _⟩

theorem TargetRow.Follows.trans {row₁ row₂ row₃ : TargetRow} (h : row₁.Follows row₂)
    (h' : row₂.Follows row₃) : row₁.Follows row₃ :=
  ⟨h'.namespaceId.trans h.namespaceId, h'.name.trans h.name, h'.kind.trans h.kind,
    Nat.le_trans h.revision h'.revision⟩

theorem lockTargetGeneration_some {locked : LockedTarget}
    (h : lockTargetGeneration db namespaceId name = some locked) :
    db.targets.get? locked.targetId = some locked.row ∧ locked.row.namespaceId = namespaceId ∧
      ∃ g generation, locked.row.currentGenerationId = some g ∧
        db.generations.get? g = some generation ∧
        locked.currentGeneration = generation.generation := by
  simp only [lockTargetGeneration, Option.bind_eq_bind, Option.bind_eq_some_iff, Option.pure_def,
    Option.some.injEq] at h
  obtain ⟨⟨targetId, row⟩, hnamed, g, hg, generation, hgeneration, rfl⟩ := h
  obtain ⟨hrow, hns, -⟩ := targetNamed_some hnamed
  exact ⟨hrow, hns, g, generation, hg, hgeneration, rfl⟩

theorem CatalogStep.follows (h : CatalogStep env db db') (hrow : db.targets.get? t = some row) :
    ∃ row', db'.targets.get? t = some row' ∧ row.Follows row' := by
  cases h with
  | same hsame | housed _ hsame =>
      simp only [Db.catalog, Prod.mk.injEq] at hsame
      exact ⟨row, by rw [hsame.2.1]; exact hrow, .refl row⟩
  | created hcreating =>
      rename_i draw _ _ _
      have ht : t ≠ draw.targetId := by
        rintro rfl
        cases hcreating.targetFree.symm.trans hrow
      exact ⟨row, by rw [hcreating.targets, if_neg ht]; exact hrow, .refl row⟩
  | selected _ hselecting =>
      rw [hselecting.targets, hrow]
      split
      · refine ⟨_, rfl, ?_⟩
        dsimp only
        split
        · exact ⟨rfl, rfl, rfl, Nat.le_succ _⟩
        · exact .refl row
      · exact ⟨row, rfl, .refl row⟩
  | moved hnamed hmoving =>
      rw [hmoving.targets]
      split
      · rename_i ht
        subst ht
        cases (targetNamed_some hnamed).1.symm.trans hrow
        exact ⟨_, rfl, rfl, rfl, rfl, Nat.le_succ _⟩
      · exact ⟨row, hrow, .refl row⟩

theorem CatalogStep.origin (h : CatalogStep env db db') {row' : TargetRow}
    (hrow' : db'.targets.get? t = some row') :
    (∃ row, db.targets.get? t = some row ∧ row.Follows row') ∨
      (validName row'.name = true ∧ row'.revision = 1) := by
  cases h with
  | same hsame | housed _ hsame =>
      simp only [Db.catalog, Prod.mk.injEq] at hsame
      exact Or.inl ⟨row', hsame.2.1 ▸ hrow', .refl row'⟩
  | created hcreating =>
      rw [hcreating.targets] at hrow'
      split at hrow'
      · cases hrow'
        exact Or.inr ⟨(validateTargetSpec_storable hcreating.valid).name, rfl⟩
      · exact Or.inl ⟨row', hrow', .refl row'⟩
  | selected _ hselecting =>
      rw [hselecting.targets] at hrow'
      split at hrow'
      · obtain ⟨row, hrow, rfl⟩ := Option.map_eq_some_iff.mp hrow'
        refine Or.inl ⟨row, hrow, ?_⟩
        split
        · exact ⟨rfl, rfl, rfl, Nat.le_succ _⟩
        · exact .refl row
      · exact Or.inl ⟨row', hrow', .refl row'⟩
  | moved hnamed hmoving =>
      rw [hmoving.targets] at hrow'
      split at hrow'
      · rename_i ht
        subst ht
        cases hrow'
        exact Or.inl ⟨_, (targetNamed_some hnamed).1, rfl, rfl, rfl, Nat.le_succ _⟩
      · exact Or.inl ⟨row', hrow', .refl row'⟩

namespace Db.Cataloged

theorem empty : Db.empty.Cataloged := by
  constructor <;> intros <;> contradiction

/-- Only the tables of the catalog count. -/
theorem congr (h : db.Cataloged) (hsame : db'.catalog = db.catalog) : db'.Cataloged := by
  simp only [Db.catalog, Prod.mk.injEq] at hsame
  obtain ⟨hnamespaces, htargets, hgenerations, hpartitions, -⟩ := hsame
  refine ⟨?_, ?_, ?_, ?_, ?_⟩
  · rw [htargets, hnamespaces]
    exact h.housed
  · rw [htargets]
    exact h.named
  · intro t row hrow
    rw [htargets] at hrow
    obtain ⟨g, generation, hcurrent⟩ := h.current t row hrow
    refine ⟨g, generation, hcurrent.selected, ?_, hcurrent.target, ?_⟩
    · rw [hgenerations]
      exact hcurrent.stored
    · rw [hgenerations]
      exact hcurrent.numbered
  · rw [htargets, hgenerations]
    exact h.owned
  · rw [hpartitions, hgenerations]
    exact h.parted

theorem named_of_follows (h : db.Cataloged)
    (hback : ∀ t row', db'.targets.get? t = some row' →
      ∃ row, db.targets.get? t = some row ∧ row.Follows row') :
    ∀ t t' row row', db'.targets.get? t = some row → db'.targets.get? t' = some row' →
      row.namespaceId = row'.namespaceId → row.name = row'.name → t = t' := by
  intro t t' row row' hrow hrow' hns hname
  obtain ⟨old, hold, hfollows⟩ := hback t row hrow
  obtain ⟨old', hold', hfollows'⟩ := hback t' row' hrow'
  refine h.named t t' old old' hold hold' ?_ ?_
  · rw [← hfollows.namespaceId, ← hfollows'.namespaceId, hns]
  · rw [← hfollows.name, ← hfollows'.name, hname]

theorem house (h : db.Cataloged) {namespaces : Table Id String}
    (hinsert : db.namespaces.insert? namespaceId name = some namespaces) :
    { db with namespaces := namespaces }.Cataloged := by
  refine ⟨?_, h.named, ?_, h.owned, h.parted⟩
  · intro t row hrow
    obtain ⟨name', hname'⟩ := h.housed t row hrow
    have hne : row.namespaceId ≠ namespaceId := by
      rintro hns
      rw [hns, Table.insert?_free hinsert] at hname'
      cases hname'
    exact ⟨name', by rw [Table.get?_insert hinsert, if_neg hne]; exact hname'⟩
  · intro t row hrow
    obtain ⟨g, generation, hcurrent⟩ := h.current t row hrow
    exact ⟨g, generation, { hcurrent with }⟩

theorem numbered_insert (hinsert : db.generations.insert? g new = some generations) (n : Nat) :
    (∃ g' other, generations.get? g' = some other ∧ other.targetId = t ∧ other.generation = n) ↔
      (∃ g' other, db.generations.get? g' = some other ∧ other.targetId = t ∧
        other.generation = n) ∨ (new.targetId = t ∧ new.generation = n) := by
  have hget := Table.get?_insert hinsert
  have hfree := Table.insert?_free hinsert
  constructor
  · rintro ⟨g', other, hother, ht, hn⟩
    rw [hget] at hother
    split at hother
    · cases hother
      exact Or.inr ⟨ht, hn⟩
    · exact Or.inl ⟨g', other, hother, ht, hn⟩
  · rintro (⟨g', other, hother, ht, hn⟩ | ⟨ht, hn⟩)
    · have hne : g' ≠ g := by
        rintro rfl
        cases hfree.symm.trans hother
      exact ⟨g', other, by rw [hget, if_neg hne]; exact hother, ht, hn⟩
    · exact ⟨g, new, by rw [hget, if_pos rfl], ht, hn⟩

theorem parted_insert (h : db.Cataloged) (hinsert : db.generations.insert? g new = some generations)
    {p : Id} {partition : PartitionRow}
    (hcases : db.partitions.get? p = some partition ∨ partition.targetGenerationId = g) :
    ∃ generation, generations.get? partition.targetGenerationId = some generation := by
  obtain hold | hnew := hcases
  · obtain ⟨generation, hgeneration⟩ := h.parted p partition hold
    exact ⟨generation, Table.insert?_keeps hinsert hgeneration⟩
  · exact ⟨new, by rw [hnew, Table.get?_insert hinsert, if_pos rfl]⟩

theorem create (h : db.Cataloged) {granted : Authorization} {draw : TargetDraw} {spec : TargetSpec}
    {createdAt : Time} (hcreating : Creating env granted draw spec generations createdAt db db') :
    db'.Cataloged := by
  have hget := hcreating.targets
  have hparted := hcreating.parted
  obtain ⟨targets, partitions, clocks, idempotency, audit, rfl⟩ := hcreating.rest
  dsimp only at hget hparted
  have hold : ∀ t row, targets.get? t = some row → t ≠ draw.targetId →
      db.targets.get? t = some row := by
    intro t row hrow ht
    rw [hget, if_neg ht] at hrow
    exact hrow
  have hnew : ∀ row, targets.get? draw.targetId = some row →
      row.namespaceId = granted.namespaceId ∧ row.name = spec.name ∧
        row.currentGenerationId = some draw.generationId := by
    intro row hrow
    rw [hget, if_pos rfl] at hrow
    cases hrow
    exact ⟨rfl, rfl, rfl⟩
  -- the identity of the target is new, so no generation names it yet
  have hunowned : ∀ g other, db.generations.get? g = some other →
      other.targetId ≠ draw.targetId := by
    intro g other hother ht
    obtain ⟨row, hrow⟩ := h.owned g other hother
    rw [ht, hcreating.targetFree] at hrow
    cases hrow
  refine ⟨?_, ?_, ?_, ?_,
    fun p partition hp => h.parted_insert hcreating.generation (hparted.origin p _ hp)⟩
  · intro t row hrow
    by_cases ht : t = draw.targetId
    · subst ht
      rw [(hnew row hrow).1]
      exact hcreating.housed
    · exact h.housed t row (hold t row hrow ht)
  · intro t t' row row' hrow hrow' hns hname
    by_cases ht : t = draw.targetId <;> by_cases ht' : t' = draw.targetId
    · rw [ht, ht']
    · subst ht
      obtain ⟨hns₁, hname₁, -⟩ := hnew row hrow
      exact absurd (hname.symm.trans hname₁)
        (hcreating.named t' row' (hold t' row' hrow' ht') (hns.symm.trans hns₁))
    · subst ht'
      obtain ⟨hns₁, hname₁, -⟩ := hnew row' hrow'
      exact absurd (hname.trans hname₁)
        (hcreating.named t row (hold t row hrow ht) (hns.trans hns₁))
    · exact h.named t t' row row' (hold t row hrow ht) (hold t' row' hrow' ht') hns hname
  · intro t row hrow
    by_cases ht : t = draw.targetId
    · subst ht
      refine ⟨draw.generationId, _, (hnew row hrow).2.2,
        by rw [Table.get?_insert hcreating.generation, if_pos rfl], rfl, ?_⟩
      intro n
      rw [numbered_insert hcreating.generation]
      constructor
      · rintro (⟨g, other, hother, ht, -⟩ | ⟨-, hn⟩)
        · exact absurd ht (hunowned g other hother)
        · cases hn
          exact ⟨Nat.le_refl _, Nat.le_refl _⟩
      · rintro ⟨h₁, h₂⟩
        exact Or.inr ⟨rfl, Nat.le_antisymm h₁ h₂⟩
    · obtain ⟨g, generation, hcurrent⟩ := h.current t row (hold t row hrow ht)
      refine ⟨g, generation, hcurrent.selected,
        Table.insert?_keeps hcreating.generation hcurrent.stored, hcurrent.target, ?_⟩
      intro n
      rw [numbered_insert hcreating.generation, hcurrent.numbered]
      exact or_iff_left fun hne => ht hne.1.symm
  · intro g generation hgeneration
    dsimp only at hgeneration ⊢
    rw [Table.get?_insert hcreating.generation] at hgeneration
    split at hgeneration
    · cases hgeneration
      exact ⟨_, by rw [hget]; exact if_pos rfl⟩
    · obtain ⟨row, hrow⟩ := h.owned g generation hgeneration
      exact ⟨row, by rw [hget, if_neg (hunowned g generation hgeneration)]; exact hrow⟩

theorem select (h : db.Cataloged) {granted : Authorization} {draw : TargetDraw}
    {locked : LockedTarget} {change : TargetGenerationChange}
    (hlocked : lockTargetGeneration db granted.namespaceId name = some locked)
    (hselecting : Selecting env granted draw locked change generations db db') : db'.Cataloged := by
  have hget := hselecting.targets
  have hparted := hselecting.parted
  obtain ⟨targets, partitions, idempotency, audit, outbox, rfl⟩ := hselecting.rest
  dsimp only at hget hparted
  obtain ⟨hrow, hns, g₀, generation₀, hselected, hstored, hnumber⟩ :=
    lockTargetGeneration_some hlocked
  obtain ⟨g₁, generation₁, hcurrent₁⟩ := h.current _ _ hrow
  cases hcurrent₁.selected.symm.trans hselected
  cases hcurrent₁.stored.symm.trans hstored
  have hlockedRow : targets.get? locked.targetId =
      some (locked.row.selectGeneration env draw.generationId) := by
    rw [hget, if_pos rfl, hrow, Option.map_some, if_pos hns]
  have hback : ∀ t row', targets.get? t = some row' →
      ∃ row, db.targets.get? t = some row ∧ row.Follows row' := by
    intro t row' hrow'
    by_cases ht : t = locked.targetId
    · subst ht
      cases hlockedRow.symm.trans hrow'
      exact ⟨locked.row, hrow, rfl, rfl, rfl, Nat.le_succ _⟩
    · rw [hget, if_neg ht] at hrow'
      exact ⟨row', hrow', .refl row'⟩
  refine ⟨?_, h.named_of_follows hback, ?_, ?_,
    fun p partition hp => h.parted_insert hselecting.generation (hparted.origin p _ hp)⟩
  · intro t row' hrow'
    obtain ⟨row, hold, hfollows⟩ := hback t row' hrow'
    rw [hfollows.namespaceId]
    exact h.housed t row hold
  · intro t row hrow'
    by_cases ht : t = locked.targetId
    · subst ht
      cases hlockedRow.symm.trans hrow'
      refine ⟨draw.generationId, _, rfl,
        by rw [Table.get?_insert hselecting.generation, if_pos rfl], rfl, ?_⟩
      intro n
      rw [numbered_insert hselecting.generation, hcurrent₁.numbered]
      simp only [newGenerationRow, true_and, hnumber]
      lia
    · rw [hget, if_neg ht] at hrow'
      obtain ⟨g, generation, hcurrent⟩ := h.current t row hrow'
      refine ⟨g, generation, hcurrent.selected,
        Table.insert?_keeps hselecting.generation hcurrent.stored, hcurrent.target, ?_⟩
      intro n
      rw [numbered_insert hselecting.generation, hcurrent.numbered]
      exact or_iff_left fun hne => ht hne.1.symm
  · intro g generation hgeneration
    have hkept : ∀ t, (∃ row, db.targets.get? t = some row) → ∃ row, targets.get? t = some row := by
      rintro t ⟨row, hold⟩
      rw [hget]
      split
      · exact ⟨_, by rw [hold]; rfl⟩
      · exact ⟨row, hold⟩
    dsimp only at hgeneration ⊢
    rw [Table.get?_insert hselecting.generation] at hgeneration
    split at hgeneration
    · cases hgeneration
      exact ⟨_, hlockedRow⟩
    · exact hkept _ (h.owned g generation hgeneration)

theorem move (h : db.Cataloged) {targetId : Id} {state : TargetState}
    (hnamed : targetNamed db namespaceId name = some (targetId, row))
    (hmoving : Moving env targetId row state db db') : db'.Cataloged := by
  have htargets := hmoving.targets
  obtain ⟨targets, idempotency, audit, outbox, rfl⟩ := hmoving.rest
  obtain ⟨hrow, -, -⟩ := targetNamed_some hnamed
  dsimp only at htargets
  have hback : ∀ t row', targets.get? t = some row' →
      ∃ old, db.targets.get? t = some old ∧ old.Follows row' ∧
        row'.currentGenerationId = old.currentGenerationId := by
    intro t row' hrow'
    rw [htargets] at hrow'
    split at hrow'
    · rename_i ht
      subst ht
      cases hrow'
      exact ⟨row, hrow, ⟨rfl, rfl, rfl, Nat.le_succ _⟩, rfl⟩
    · exact ⟨row', hrow', .refl row', rfl⟩
  refine ⟨?_, ?_, ?_, ?_, h.parted⟩
  · intro t row' hrow'
    obtain ⟨old, hold, hfollows, -⟩ := hback t row' hrow'
    rw [hfollows.namespaceId]
    exact h.housed t old hold
  · refine h.named_of_follows fun t row' hrow' => ?_
    obtain ⟨old, hold, hfollows, -⟩ := hback t row' hrow'
    exact ⟨old, hold, hfollows⟩
  · intro t row' hrow'
    obtain ⟨old, hold, -, hcurrent⟩ := hback t row' hrow'
    obtain ⟨g, generation, hgeneration⟩ := h.current t old hold
    exact ⟨g, generation, { hgeneration with selected := hcurrent.trans hgeneration.selected }⟩
  · intro g generation hgeneration
    obtain ⟨old, hold⟩ := h.owned g generation hgeneration
    dsimp only
    rw [htargets]
    split
    · exact ⟨_, rfl⟩
    · exact ⟨old, hold⟩

theorem step (h : db.Cataloged) (hstep : CatalogStep env db db') : db'.Cataloged := by
  cases hstep with
  | same hsame => exact h.congr hsame
  | housed hinsert hsame => exact (h.house hinsert).congr hsame
  | created hcreating => exact h.create hcreating
  | selected hlocked hselecting => exact h.select hlocked hselecting
  | moved hnamed hmoving => exact h.move hnamed hmoving

end Db.Cataloged

theorem CatalogStep.generation (h : CatalogStep env db db') {generation : GenerationRow}
    (hrow : db.generations.get? g = some generation) :
    db'.generations.get? g = some generation := by
  cases h with
  | same hsame | housed _ hsame =>
      simp only [Db.catalog, Prod.mk.injEq] at hsame
      rw [hsame.2.2.1]
      exact hrow
  | created hcreating =>
      obtain ⟨_, _, _, _, _, rfl⟩ := hcreating.rest
      exact Table.insert?_keeps hcreating.generation hrow
  | selected _ hselecting =>
      obtain ⟨_, _, _, _, _, rfl⟩ := hselecting.rest
      exact Table.insert?_keeps hselecting.generation hrow
  | moved _ hmoving =>
      obtain ⟨_, _, _, _, rfl⟩ := hmoving.rest
      exact hrow

theorem CatalogStep.partition (h : CatalogStep env db db') {p : Id} {partition : PartitionRow}
    (hrow : db.partitions.get? p = some partition) :
    db'.partitions.get? p = some partition := by
  cases h with
  | same hsame | housed _ hsame =>
      simp only [Db.catalog, Prod.mk.injEq] at hsame
      rw [hsame.2.2.2.1]
      exact hrow
  | created hcreating => exact hcreating.parted.kept p partition hrow
  | selected _ hselecting => exact hselecting.parted.kept p partition hrow
  | moved _ hmoving =>
      obtain ⟨_, _, _, _, rfl⟩ := hmoving.rest
      exact hrow

/-- A namespace keeps its name. -/
theorem CatalogStep.namespaceName (h : CatalogStep env db db')
    (hname : db.namespaces.get? namespaceId = some name) :
    db'.namespaces.get? namespaceId = some name := by
  cases h with
  | same hsame =>
      simp only [Db.catalog, Prod.mk.injEq] at hsame
      rw [hsame.1]
      exact hname
  | housed hinsert hsame =>
      simp only [Db.catalog, Prod.mk.injEq] at hsame
      rw [hsame.1]
      exact Table.insert?_keeps hinsert hname
  | created hcreating =>
      obtain ⟨_, _, _, _, _, rfl⟩ := hcreating.rest
      exact hname
  | selected _ hselecting =>
      obtain ⟨_, _, _, _, _, rfl⟩ := hselecting.rest
      exact hname
  | moved _ hmoving =>
      obtain ⟨_, _, _, _, rfl⟩ := hmoving.rest
      exact hname

namespace Service

theorem Arises.cataloged (h : Arises platform db) : db.Cataloged :=
  h.invariant Db.Cataloged.empty fun _ call _ hcataloged _ hstep =>
    hcataloged.step (hstep ▸ call.catalogStep platform _)

/-- Every target has a valid name and a positive revision. -/
theorem Arises.target_valid (h : Arises platform db) (hrow : db.targets.get? t = some row) :
    validName row.name = true ∧ 1 ≤ row.revision := by
  have hall : ∀ t row, db.targets.get? t = some row →
      validName row.name = true ∧ 1 ≤ row.revision := by
    refine h.invariant (P := fun d => ∀ t row, d.targets.get? t = some row →
      validName row.name = true ∧ 1 ≤ row.revision) (fun _ _ h => (by cases h)) ?_
    rintro d call _ hvalid - rfl t row hrow
    obtain ⟨old, hold, hfollows⟩ | ⟨hname, hrevision⟩ := (call.catalogStep platform d).origin hrow
    · obtain ⟨hname, hrevision⟩ := hvalid t old hold
      exact ⟨hfollows.name ▸ hname, Nat.le_trans hrevision hfollows.revision⟩
    · exact ⟨hname, hrevision.ge⟩
  exact hall t row hrow

/-- A target stays, with its name, its kind and its namespace. -/
theorem Later.target_follows (h : Later platform db db') (hrow : db.targets.get? t = some row) :
    ∃ row', db'.targets.get? t = some row' ∧ row.Follows row' := by
  refine h.invariant (P := fun d => ∃ row', d.targets.get? t = some row' ∧ row.Follows row')
    ⟨row, hrow, .refl row⟩ ?_
  rintro d call _ ⟨row', hrow', hfollows⟩ - rfl
  obtain ⟨row'', hrow'', hfollows'⟩ := (call.catalogStep platform d).follows hrow'
  exact ⟨row'', hrow'', hfollows.trans hfollows'⟩

end Service

end JobmanControl
