import JobmanControl.Authority.Frame

/-!
What a configuration leaves. An installed mapping is a valid one, is filed under
its source and its revision, and its namespaces are managed by that source for
ever; installing it withdraws every verification of the source and leaves other
sources alone.
-/

namespace JobmanControl

open Relational

variable {db db' : Authority} {now : Time} {q : Id → ManagedRow → Bool}
  {digest : DirectoryMapping → String}

/-- What the checks of a mapping establish, as far as grants depend on it. -/
structure ValidMapping (mapping : DirectoryMapping) : Prop where
  groups : (mapping.bindings.map (·.groupId)).Nodup
  confined : ∀ binding ∈ mapping.bindings, binding.namespaceId ∈ mapping.namespaces
  accounts : (mapping.identities.map (·.directoryId)).Nodup

variable {u : Unit} {mapping : DirectoryMapping} {sourceId : String} {primitives : Primitives}

theorem validateIdentities_nodup {accounts principals : List Id} {known : List (SignIn × Id)}
    {identities : List DirectoryIdentity}
    (h : validateIdentities accounts principals known identities = .ok u) :
    (identities.map (·.directoryId)).Nodup ∧ ∀ i ∈ identities, i.directoryId ∉ accounts := by
  induction identities generalizing accounts principals known with
  | nil => simp
  | cons identity rest ih =>
      simp only [validateIdentities, bind_ok_iff, ensure_ok_iff] at h
      obtain ⟨-, ⟨hfresh, -⟩, known', -, hrest⟩ := h
      obtain ⟨hnodup, hout⟩ := ih hrest
      simp only [List.mem_cons, not_or] at hout
      simp only [List.map_cons, List.nodup_cons, List.mem_map, List.forall_mem_cons, not_exists,
        not_and]
      exact ⟨⟨fun i hi => (hout i hi).1, hnodup⟩, hfresh, fun i hi => (hout i hi).2⟩

theorem validMapping_of_ok (h : validateMapping mapping = .ok u) : ValidMapping mapping := by
  simp only [validateMapping, bind_ok_iff, ensure_ok_iff] at h
  obtain ⟨-, -, -, -, -, -, -, ⟨hgroups, hscoped⟩, hidentities⟩ := h
  exact ⟨hgroups, hscoped, (validateIdentities_nodup hidentities).1⟩

namespace Authority

theorem isManagedBy_of_eq (h : db'.managed = db.managed) : db'.isManagedBy = db.isManagedBy := by
  funext sourceId n
  simp only [isManagedBy, h]

theorem isManagedBy_iff (db : Authority) (sourceId : String) (n : Id) :
    db.isManagedBy sourceId n = true ↔
      ∃ state, db.managed.get? n = some state ∧ state.sourceId = sourceId := by
  simp only [isManagedBy, Option.any_eq_true, decide_eq_true_eq]

theorem isManagedBy_updateWhere {f : Id → ManagedRow → ManagedRow}
    (h : db'.managed = db.managed.updateWhere q f)
    (hf : ∀ n row, (f n row).sourceId = row.sourceId) : db'.isManagedBy = db.isManagedBy := by
  funext s n
  simp only [isManagedBy, h, Table.get?_updateWhere]
  cases db.managed.get? n with
  | none => rfl
  | some row =>
      simp only [Option.map_some, Option.any_some]
      split
      · rw [hf]
      · rfl

/-- How managed namespaces may change on behalf of a source: those of other sources
stay as they are, and its own stay its own. -/
structure ManagedFor (sourceId : String) (db db' : Authority) : Prop where
  others : ∀ n state, state.sourceId ≠ sourceId →
    (db'.managed.get? n = some state ↔ db.managed.get? n = some state)
  own : ∀ n, db.isManagedBy sourceId n = true → db'.isManagedBy sourceId n = true

theorem ManagedFor.trans {db'' : Authority} (h : ManagedFor sourceId db db')
    (h' : ManagedFor sourceId db' db'') : ManagedFor sourceId db db'' :=
  ⟨fun n state hother => (h'.others n state hother).trans (h.others n state hother),
    fun n hn => h'.own n (h.own n hn)⟩

theorem ManagedFor.of_eq (h : db'.managed = db.managed) : ManagedFor sourceId db db' :=
  ⟨fun n state _ => by rw [h], fun n hn => by rwa [isManagedBy_of_eq h]⟩

theorem ManagedFor.of_updateWhere (f : Id → ManagedRow → ManagedRow)
    (hf : ∀ n row, (f n row).sourceId = row.sourceId)
    (h : db'.managed = db.managed.updateWhere (fun _ row => row.sourceId = sourceId) f) :
    ManagedFor sourceId db db' := by
  constructor
  · intro n state hother
    rw [h, Table.get?_updateWhere, Option.map_eq_some_iff]
    constructor
    · rintro ⟨row, hrow, rfl⟩
      split at hother <;> rename_i hown
      · rw [hf, of_decide_eq_true hown] at hother
        exact absurd rfl hother
      · rwa [if_neg hown]
    · intro hrow
      exact ⟨state, hrow, if_neg (by simpa using hother)⟩
  · intro n hn
    rwa [isManagedBy_updateWhere h hf]

theorem withdrawNamespaces_managed (db : Authority) (sourceId : String) (revision : Int) :
    ManagedFor sourceId db (db.withdrawNamespaces sourceId revision) :=
  ManagedFor.of_updateWhere
    (fun _ row => { row with lastVerifiedAt := none, configurationRevision := revision })
    (fun _ _ => rfl) rfl

theorem manageNamespace_managed (db : Authority) (revision : Int) {n : Id}
    (hfree : ∀ state, db.managed.get? n = some state → state.sourceId = sourceId) :
    ManagedFor sourceId db (db.manageNamespace sourceId revision n) ∧
      (db.manageNamespace sourceId revision n).isManagedBy sourceId n = true := by
  simp only [isManagedBy_iff]
  unfold manageNamespace
  split
  · rename_i managed hinsert
    have hget := Table.get?_insert hinsert
    have hnew := Table.insert?_free hinsert
    refine ⟨⟨?_, ?_⟩, _, (hget n).trans (if_pos rfl), rfl⟩
    · intro n' state hother
      change managed.get? n' = some state ↔ _
      rw [hget]
      split
      · rename_i hn
        subst hn
        rw [hnew]
        refine iff_of_false ?_ fun h => by cases h
        intro hstate
        cases hstate
        exact hother rfl
      · rfl
    · intro n' hn'
      rw [isManagedBy_iff] at hn' ⊢
      obtain ⟨state, hstate, hsource⟩ := hn'
      refine ⟨state, (hget n').trans ?_, hsource⟩
      rw [if_neg, hstate]
      rintro rfl
      rw [hnew] at hstate
      cases hstate
  · rename_i hinsert
    obtain ⟨old, hold⟩ := (Table.insert?_eq_none_iff _ _ _).mp hinsert
    have hown := hfree old hold
    refine ⟨⟨?_, ?_⟩, ?_⟩
    · intro n' state hother
      change (db.managed.modify n _).get? n' = some state ↔ _
      rw [Table.get?_modify]
      split
      · rename_i hn
        subst hn
        rw [hold]
        refine iff_of_false ?_ ?_
        · rintro hstate
          cases hstate
          exact hother hown
        · rintro hstate
          cases hstate
          exact hother hown
      · rfl
    · intro n' hn'
      rw [isManagedBy_iff] at hn' ⊢
      obtain ⟨state, hstate, hsource⟩ := hn'
      change ∃ state, (db.managed.modify n _).get? n' = some state ∧ _
      rw [Table.get?_modify, hstate]
      split
      · exact ⟨_, rfl, hsource⟩
      · exact ⟨state, rfl, hsource⟩
    · change ∃ state, (db.managed.modify n _).get? n = some state ∧ _
      rw [Table.get?_modify_self, hold]
      exact ⟨_, rfl, hown⟩

theorem foldl_manageNamespace_managed (db : Authority) (revision : Int) {l : List Id}
    (hfree : ∀ n ∈ l, ∀ state, db.managed.get? n = some state → state.sourceId = sourceId) :
    ManagedFor sourceId db (l.foldl (fun db id => db.manageNamespace sourceId revision id) db) ∧
      ∀ n ∈ l, (l.foldl (fun db id => db.manageNamespace sourceId revision id) db).isManagedBy
        sourceId n = true := by
  induction l generalizing db with
  | nil => exact ⟨ManagedFor.of_eq rfl, fun _ h => absurd h List.not_mem_nil⟩
  | cons n rest ih =>
      rw [List.forall_mem_cons] at hfree
      obtain ⟨hstep, hnew⟩ := db.manageNamespace_managed revision hfree.1
      have hrest : ∀ m ∈ rest, ∀ state,
          (db.manageNamespace sourceId revision n).managed.get? m = some state →
          state.sourceId = sourceId := by
        intro m hm state hstate
        by_contra hother
        exact hother (hfree.2 m hm state ((hstep.others m state hother).mp hstate))
      obtain ⟨hloop, hall⟩ := ih _ hrest
      exact ⟨hstep.trans hloop, List.forall_mem_cons.mpr ⟨hloop.own n hnew, hall⟩⟩

theorem planDirectory_free (h : db.planDirectory mapping = .ok u) :
    ∀ n ∈ mapping.namespaces, ∀ state, db.managed.get? n = some state →
      state.sourceId = mapping.sourceId := by
  simp only [planDirectory, bind_ok_iff, ensure_ok_iff] at h
  obtain ⟨_, hnamespaces, -⟩ := h
  intro n hn state hstate
  have hone := (forM_ok_iff _ _).mp hnamespaces n hn
  simp only [bind_ok_iff, ensure_ok_iff, hstate, Option.all_some, decide_eq_true_eq] at hone
  obtain ⟨-, -, hone⟩ := hone
  exact hone

/-- What a new revision of a mapping does. -/
structure Reconfigured (digest : DirectoryMapping → String) (mapping : DirectoryMapping)
    (db db' : Authority) : Prop where
  valid : ValidMapping mapping
  installed : ∃ row, row.mapping = mapping ∧ row.revision = mapping.revision ∧
    row.configurationDigest = digest mapping ∧ row.lastVerifiedAt = none ∧
    ∀ s, db'.sources.get? s = if s = mapping.sourceId then some row else db.sources.get? s
  managed : ManagedFor mapping.sourceId db db'
  adopted : ∀ n ∈ mapping.namespaces, db'.isManagedBy mapping.sourceId n = true
  withdrawn : ∀ n state, db'.managed.get? n = some state → state.sourceId = mapping.sourceId →
    state.lastVerifiedAt = none
  grants : db'.grants = db.grants
  epoch : db'.epoch = db.epoch

end Authority

open Authority

theorem configureDirectory_cases (h : configureDirectory digest now mapping db = .ok (u, db')) :
    (db' = db ∧ ∃ row, db.sources.get? mapping.sourceId = some row ∧
      row.revision = mapping.revision ∧ row.configurationDigest = digest mapping) ∨
      Reconfigured digest mapping db db' := by
  simp only [configureDirectory, bind_ok_iff, ensure_ok_iff] at h
  obtain ⟨_, hvalid, _, hplan, -, hcurrent, h⟩ := h
  split at h
  · rename_i hsame
    simp only [pure_ok_iff, Prod.mk.injEq] at h
    obtain ⟨row, hrow, hrevision⟩ := (Option.any_eq_true _ _).mp hsame
    rw [decide_eq_true_eq] at hrevision
    rw [hrow, Option.all_some, decide_eq_true_eq] at hcurrent
    obtain hlt | ⟨-, hdigest⟩ := hcurrent
    · omega
    · exact Or.inl ⟨h.2.symm, row, hrow, hrevision, hdigest⟩
  · simp only [bind_ok_iff, ensure_ok_iff, pure_ok_iff, Prod.mk.injEq] at h
    obtain ⟨-, -, db₁, hidentities, -, hdb'⟩ := h
    have htables : db'.sources = (db.installMapping digest now mapping).sources ∧
        db'.managed = ((mapping.namespaces.foldl
          (fun db id => db.manageNamespace mapping.sourceId mapping.revision id)
          (db.installMapping digest now mapping)).withdrawNamespaces mapping.sourceId
            mapping.revision).managed ∧
        db'.grants = db.grants ∧ db'.epoch = db.epoch := by
      obtain ⟨t, a, v, rfl⟩ := foldlM_installIdentity_eq hidentities
      obtain ⟨b, v₁, hb⟩ := foldl_upsertBinding_eq _ mapping.bindings
      obtain ⟨_, v₂, ha⟩ := withdrawAccounts_eq _ mapping.sourceId
      obtain ⟨_, v₃, hd⟩ := withdrawBindings_eq _ mapping.sourceId
      obtain ⟨m, v₄, hm⟩ := foldl_manageNamespace_eq (db.installMapping digest now mapping)
        mapping.sourceId mapping.revision mapping.namespaces
      rw [← hdb', hb, ha, hd, hm]
      exact ⟨rfl, rfl, rfl, rfl⟩
    obtain ⟨hsources, hmanaged, hgrants, hepoch⟩ := htables
    obtain ⟨hfor, hadopt⟩ := foldl_manageNamespace_managed (db.installMapping digest now mapping)
      mapping.revision (planDirectory_free hplan)
    have hwithdraw := (withdrawNamespaces_managed _ mapping.sourceId mapping.revision).trans
      (ManagedFor.of_eq hmanaged)
    have hinstall : ManagedFor mapping.sourceId db (db.installMapping digest now mapping) :=
      ManagedFor.of_eq rfl
    refine Or.inr
      { valid := validMapping_of_ok hvalid
        installed := ?_
        managed := hinstall.trans (hfor.trans hwithdraw)
        adopted := fun n hn => hwithdraw.own n (hadopt n hn)
        withdrawn := ?_
        grants := hgrants
        epoch := hepoch }
    · rw [hsources]
      refine ⟨_, ?_, ?_, ?_, ?_, db.sources.get?_upsert mapping.sourceId _ _⟩
      all_goals cases db.sources.get? mapping.sourceId <;> rfl
    · intro n state hstate hsource
      rw [hmanaged, withdrawNamespaces, Table.get?_updateWhere, Option.map_eq_some_iff] at hstate
      obtain ⟨row, -, rfl⟩ := hstate
      split at hsource <;> rename_i hown
      · rw [if_pos hown]
      · exact absurd (decide_eq_true hsource) hown

theorem AuthorityCall.directory_eq {call : AuthorityCall} (h : call.run primitives db = .ok db')
    (hkeeps : call.operation.keepsDirectory = true) :
    db'.sources = db.sources ∧ db'.managed = db.managed ∧ db'.epoch = db.epoch := by
  cases call.writes h with
  | nothing | keys | ledger => exact ⟨rfl, rfl, rfl⟩
  | membership hprincipal _ hmember =>
      obtain ⟨_, rfl⟩ := upsertPrincipal_eq hprincipal
      obtain ⟨_, _, _, rfl⟩ := upsertMembership_eq hmember
      exact ⟨rfl, rfl, rfl⟩
  | grant hprincipal _ hinsert =>
      obtain ⟨_, rfl⟩ := upsertPrincipal_eq hprincipal
      obtain ⟨_, -, rfl⟩ := insertGrant_eq hinsert
      exact ⟨rfl, rfl, rfl⟩
  | revocation =>
      obtain ⟨_, hv⟩ := db.updateGrants_eq _ _
      rw [hv]
      exact ⟨rfl, rfl, rfl⟩
  | configuration hop | snapshot hop | failure hop =>
      simp [hop, AuthorityOperation.keepsDirectory] at hkeeps

/-- What an applied snapshot does to the tables that say who manages what. -/
theorem applyDirectorySnapshot_directory {grantId : DesiredGrant → Id}
    {snapshot : DirectorySnapshot}
    (h : applyDirectorySnapshot now grantId snapshot db = .ok (u, db')) :
    ∃ source, db.sources.get? snapshot.sourceId = some source ∧
      db'.sources = (db.recordVerification now source.mapping.sourceId snapshot).sources ∧
      db'.managed = (db.recordVerification now source.mapping.sourceId snapshot).managed ∧
      db'.epoch = db.epoch := by
  simp only [applyDirectorySnapshot, bind_ok_iff, need_ok_iff, pure_ok_iff, Prod.mk.injEq] at h
  obtain ⟨source, hsource, -, -, -, -, -, -, db₁, hverify, -, -, db₂, hgrant, -, rfl⟩ := h
  obtain ⟨a, l, v, rfl⟩ := foldlM_verifyIdentity_eq hverify
  obtain ⟨g, v₁, rfl⟩ := foldlM_grantDesired_eq hgrant
  obtain ⟨g', v₂, hrevoke⟩ := revokeUndesired_eq _ now source.mapping.sourceId
    (desiredGrants source.mapping snapshot)
  rw [hrevoke]
  exact ⟨source, hsource, rfl, rfl, rfl⟩

/-! The mapping of a source, and the namespaces that are the source's. -/

/-- Every installed mapping is valid, is filed under its source and its revision, and
its namespaces are managed by that source. -/
structure Configured (db : Authority) : Prop where
  own : ∀ s row, db.sources.get? s = some row →
    row.mapping.sourceId = s ∧ row.mapping.revision = row.revision ∧ ValidMapping row.mapping
  managed : ∀ s row, db.sources.get? s = some row → ∀ n ∈ row.mapping.namespaces,
    db.isManagedBy s n = true

namespace Configured

theorem of_mappings (h : Configured db)
    (hsources : ∀ s row', db'.sources.get? s = some row' → ∃ row, db.sources.get? s = some row ∧
      row'.mapping = row.mapping ∧ row'.revision = row.revision)
    (hmanaged : ∀ s n, db.isManagedBy s n = true → db'.isManagedBy s n = true) :
    Configured db' := by
  constructor
  · intro s row' hrow'
    obtain ⟨row, hrow, hmapping, hrevision⟩ := hsources s row' hrow'
    rw [hmapping, hrevision]
    exact h.own s row hrow
  · intro s row' hrow' n hn
    obtain ⟨row, hrow, hmapping, -⟩ := hsources s row' hrow'
    rw [hmapping] at hn
    exact hmanaged s n (h.managed s row hrow n hn)

theorem reconfigured (h : Configured db) (hnew : Reconfigured digest mapping db db') :
    Configured db' := by
  obtain ⟨row, hmapping, hrevision, -, -, hget⟩ := hnew.installed
  constructor
  · intro s row' hrow'
    rw [hget] at hrow'
    split at hrow' <;> rename_i hs
    · cases hrow'
      rw [hmapping, hs]
      exact ⟨rfl, hrevision.symm, hnew.valid⟩
    · exact h.own s row' hrow'
  · intro s row' hrow' n hn
    rw [hget] at hrow'
    split at hrow' <;> rename_i hs
    · cases hrow'
      rw [hmapping] at hn
      rw [hs]
      exact hnew.adopted n hn
    · have hbefore := h.managed s row' hrow' n hn
      rw [isManagedBy_iff] at hbefore ⊢
      obtain ⟨state, hstate, rfl⟩ := hbefore
      exact ⟨state, (hnew.managed.others n state hs).mpr hstate, rfl⟩

theorem of_freshness (h : Configured db) {f : SourceRow → SourceRow}
    {g : Id → ManagedRow → ManagedRow} (hsources : db'.sources = db.sources.modify sourceId f)
    (hmanaged : db'.managed = db.managed.updateWhere q g)
    (hf : ∀ row, (f row).mapping = row.mapping ∧ (f row).revision = row.revision)
    (hg : ∀ n row, (g n row).sourceId = row.sourceId) : Configured db' := by
  refine h.of_mappings ?_ (fun s n hn => by rwa [isManagedBy_updateWhere hmanaged hg])
  intro s row' hrow'
  rw [hsources, Table.get?_modify] at hrow'
  split at hrow'
  · obtain ⟨row, hrow, rfl⟩ := Option.map_eq_some_iff.mp hrow'
    exact ⟨row, hrow, hf row⟩
  · exact ⟨row', hrow', rfl, rfl⟩

theorem run {call : AuthorityCall} (h : Configured db) (hrun : call.run primitives db = .ok db') :
    Configured db' := by
  obtain hkeeps | ⟨mapping, -, hconfigure⟩ | ⟨grantId, snapshot, -, happly⟩ |
    ⟨_, _, -, hfailure⟩ := call.directory_cases hrun
  · obtain ⟨hsources, hmanaged, -⟩ := AuthorityCall.directory_eq hrun hkeeps
    refine h.of_mappings ?_ (fun s n hn => by rwa [isManagedBy_of_eq hmanaged])
    intro s row hrow
    exact ⟨row, hsources ▸ hrow, rfl, rfl⟩
  · obtain ⟨rfl, -⟩ | hnew := configureDirectory_cases hconfigure
    · exact h
    · exact h.reconfigured hnew
  · obtain ⟨source, -, hsources, hmanaged, -⟩ := applyDirectorySnapshot_directory happly
    simp only [recordVerification] at hsources hmanaged
    exact h.of_freshness hsources hmanaged (fun _ => ⟨rfl, rfl⟩) (fun _ _ => rfl)
  · unfold recordDirectoryFailure at hfailure
    split at hfailure
    · have hmanaged := congrArg Authority.managed hfailure
      have hsources := congrArg Authority.sources hfailure
      dsimp only at hmanaged hsources
      exact h.of_freshness hsources hmanaged (fun _ => ⟨rfl, rfl⟩) (fun _ _ => rfl)
    · exact hfailure ▸ h

theorem advanceEpoch (h : Configured db) (now : Time) : Configured (advanceEpoch now db) := by
  refine h.of_mappings (fun s row hrow => ⟨row, hrow, rfl, rfl⟩) ?_
  intro s n hn
  have hsame : (JobmanControl.advanceEpoch now db).isManagedBy = db.isManagedBy := by
    have hmanaged : (JobmanControl.advanceEpoch now db).managed =
        db.managed.updateWhere (fun _ _ => true) fun _ row =>
          { row with
            lastVerifiedAt := none
            lastErrorCode := some "restore_reverification_required" } := rfl
    exact isManagedBy_updateWhere hmanaged fun _ _ => rfl
  rwa [hsame]

theorem arises {w : AuthorityHistory} (h : AuthorityHistory.Arises primitives w) :
    Configured w.db := by
  refine h.holds ?_ ?_ ?_
  · exact ⟨fun _ _ hrow => (by cases hrow), fun _ _ hrow => (by cases hrow)⟩
  · intro call db db' hdb hrun
    exact hdb.run hrun
  · intro now db hdb
    exact hdb.advanceEpoch now

end Configured

end JobmanControl
