import JobmanControl.Store.MonitoringFeed

/-!
What one page of the feed holds: all events of the namespaces of its reader between
the cursor it was given and the cursor it returns.
-/

namespace JobmanControl

open Relational

section Selection

variable (db : Db) (namespaceIds : List Id) (after head : Nat)

theorem mem_namespacePositions (n p : Nat) : p ∈ namespacePositions db after head n ↔
    ∃ row, db.feed.get? p = some row ∧ row.namespaceId = n ∧ after < p ∧ p ≤ head := by
  simp only [namespacePositions, List.mem_map, mem_orderBy, Prod.exists, Table.mem_select,
    Bool.and_eq_true, decide_eq_true_eq]
  constructor
  · rintro ⟨_, row, ⟨hrow, ⟨hn, hafter⟩, hhead⟩, rfl⟩
    exact ⟨row, hrow, hn, hafter, hhead⟩
  · rintro ⟨row, hrow, hn, hafter, hhead⟩
    exact ⟨p, row, ⟨hrow, ⟨hn, hafter⟩, hhead⟩, rfl⟩

theorem pairwise_namespacePositions (n : Nat) :
    (namespacePositions db after head n).Pairwise (· < ·) :=
  List.pairwise_map.mpr (pairwise_orderBy Prod.fst (db.feed.nodup_map_fst_select _))

theorem nodup_flatten_positions (h : namespaceIds.Nodup) :
    (namespaceIds.map (namespacePositions db after head)).flatten.Nodup := by
  rw [List.nodup_flatten]
  constructor
  · intro l hl
    obtain ⟨n, -, rfl⟩ := List.mem_map.mp hl
    exact (pairwise_namespacePositions db after head n).imp fun hlt => hlt.ne
  · refine List.pairwise_map.mpr (h.imp ?_)
    intro n n' hne p hp hp'
    obtain ⟨row, hrow, hn, -⟩ := (mem_namespacePositions db after head n p).mp hp
    obtain ⟨row', hrow', hn', -⟩ := (mem_namespacePositions db after head n' p).mp hp'
    cases hrow.symm.trans hrow'
    exact hne (hn.symm.trans hn')

def scopedEvents : List MonitoringEvent :=
  (orderBy (fun a b => a ≤ b)
    (namespaceIds.map (namespacePositions db after head)).flatten).filterMap
    fun position => (db.feed.get? position).map (·.event position)

theorem mem_scopedEvents (event : MonitoringEvent) :
    event ∈ scopedEvents db namespaceIds after head ↔
    ∃ row, db.feed.get? event.position = some row ∧ row.namespaceId ∈ namespaceIds ∧
      after < event.position ∧ event.position ≤ head ∧ event = row.event event.position := by
  simp only [scopedEvents, List.mem_filterMap, mem_orderBy, List.mem_flatten, List.mem_map]
  constructor
  · rintro ⟨p, ⟨_, ⟨n, hn, rfl⟩, hp⟩, hevent⟩
    obtain ⟨row, hrow, rfl, hafter, hhead⟩ := (mem_namespacePositions db after head n p).mp hp
    rw [hrow] at hevent
    cases hevent
    exact ⟨row, hrow, hn, hafter, hhead, rfl⟩
  · rintro ⟨row, hrow, hn, hafter, hhead, hevent⟩
    refine ⟨event.position, ⟨_, ⟨row.namespaceId, hn, rfl⟩, ?_⟩, ?_⟩
    · exact (mem_namespacePositions db after head _ _).mpr ⟨row, hrow, rfl, hafter, hhead⟩
    · rw [hrow, Option.map_some, ← hevent]

theorem pairwise_scopedEvents (h : namespaceIds.Nodup) :
    (scopedEvents db namespaceIds after head).Pairwise fun a b => a.position < b.position := by
  have hsorted : (orderBy (fun a b : Nat => a ≤ b)
      (namespaceIds.map (namespacePositions db after head)).flatten).Pairwise (· < ·) :=
    pairwise_orderBy id
      (by rw [List.map_id]; exact nodup_flatten_positions db namespaceIds after head h)
  refine List.pairwise_filterMap.mpr (hsorted.imp ?_)
  intro p q hlt a ha b hb
  obtain ⟨_, -, rfl⟩ := Option.map_eq_some_iff.mp ha
  obtain ⟨_, -, rfl⟩ := Option.map_eq_some_iff.mp hb
  exact hlt

theorem selectedEvents_eq (h : namespaceIds.Nodup) (k : Nat) :
    selectedEvents db namespaceIds after head k =
      (scopedEvents db namespaceIds after head).take k := by
  rw [selectedEvents, selectedPositions, take_orderBy_flatMap_take ?_
    (nodup_flatten_positions db namespaceIds after head h), scopedEvents]
  · refine take_filterMap_of_isSome k ?_
    intro p hp
    obtain ⟨_, hl, hp⟩ := List.mem_flatten.mp ((mem_orderBy _ _ _).mp hp)
    obtain ⟨n, -, rfl⟩ := List.mem_map.mp hl
    obtain ⟨row, hrow, -⟩ := (mem_namespacePositions db after head n p).mp hp
    exact ⟨row.event p, by rw [hrow]; rfl⟩
  · intro g hg
    obtain ⟨n, -, rfl⟩ := List.mem_map.mp hg
    exact pairwise_namespacePositions db after head n

theorem page_bounds {all : List MonitoringEvent} {limit head : Nat} (hlimit : 1 ≤ limit)
    (hsorted : all.Pairwise fun a b => a.position < b.position)
    (hhead : ∀ event ∈ all, event.position ≤ head) {next : Nat}
    (hnext : next = if limit < (all.take (limit + 1)).length then
      (((all.take limit).getLast?).map (·.position)).getD head else head) :
    (next = head ∨ ∃ event ∈ all, next = event.position) ∧
      ∀ event, event ∈ all.take limit ↔ event ∈ all ∧ event.position ≤ next := by
  rw [List.length_take] at hnext
  split at hnext <;> rename_i hmore
  · -- There is a further event, so the page is full and ends with its last one.
    have hfull : (all.take limit).length = limit := by
      rw [List.length_take]
      omega
    obtain ⟨last, hlast⟩ : ∃ last, (all.take limit).getLast? = some last :=
      ⟨_, List.getLast?_eq_some_getLast (List.ne_nil_of_length_pos (by omega))⟩
    have hin := List.mem_of_getLast? hlast
    rw [hlast, Option.map_some, Option.getD_some] at hnext
    subst hnext
    refine ⟨Or.inr ⟨last, List.mem_of_mem_take hin, rfl⟩, fun event => ⟨fun hevent => ?_, ?_⟩⟩
    · refine ⟨List.mem_of_mem_take hevent, ?_⟩
      have hpage := hsorted.sublist (List.take_sublist limit all)
      rw [← List.dropLast_append_getLast? last hlast] at hevent hpage
      obtain hbefore | hsame := List.mem_append.mp hevent
      · exact ((List.pairwise_append.mp hpage).2.2 event hbefore last
          (List.mem_singleton.mpr rfl)).le
      · rw [List.mem_singleton.mp hsame]
    · rintro ⟨hmem, hle⟩
      exact mem_take_of_le hsorted hin hmem hle
  · subst hnext
    refine ⟨Or.inl rfl, fun event => ?_⟩
    rw [List.take_of_length_le (by omega)]
    exact ⟨fun hevent => ⟨hevent, hhead event hevent⟩, And.left⟩

end Selection

variable {codec : CursorCodec} {authority : Authority} {db : Db} {asOf now : Time}
  {principal : Principal}

theorem CursorCodec.decode_encode {cursor cursor' : MonitoringCursor}
    (h : codec.decode (codec.encode cursor) = some cursor') : cursor' = cursor := by
  obtain ⟨hkeyed, -, -, hencode⟩ := (codec.decode_eq_some_iff _ _).mp h
  exact codec.encode_injective hkeyed hencode

theorem authorizeMonitoringService_ok {actor : DelegatedActor}
    (h : authority.authorizeMonitoringService now principal = .ok actor) :
    principal.delegation = some actor ∧ actor.namespaceIds.Nodup := by
  simp only [Authority.authorizeMonitoringService, bind_ok_iff, need_ok_iff, ensure_ok_iff,
    pure_ok_iff] at h
  obtain ⟨_, hdelegation, -, -, _, -, -, ⟨hnodup, -⟩, -, -, -, -, rfl⟩ := h
  exact ⟨hdelegation, hnodup⟩

/-- What a checkpoint that was read says. -/
theorem readMonitoringCheckpoint_ok {checkpoint : MonitoringCheckpoint} {head floor : Nat}
    (h : readMonitoringCheckpoint codec authority db asOf now principal =
      .ok (checkpoint, head, floor)) :
    ∃ actor, authority.authorizeMonitoringService now principal = .ok actor ∧
      head = db.feedState.headPosition ∧
      floor = db.feedState.retiredThrough ∧ checkpoint.asOf = asOf ∧
      checkpoint.controlInstanceId = codec.controlInstance ∧
      checkpoint.recoveryEpoch = db.recovery.restoreEpoch ∧
      checkpoint.headCursor = codec.encode ⟨codec.controlInstance, db.recovery.restoreEpoch,
        monitoringScope codec actor, db.feedState.headPosition⟩ := by
  simp only [readMonitoringCheckpoint, bind_ok_iff, ensure_ok_iff, pure_ok_iff, Prod.mk.injEq] at h
  obtain ⟨-, -, actor, hactor, rfl, rfl, rfl⟩ := h
  exact ⟨actor, hactor, rfl, rfl, rfl, rfl, rfl, rfl⟩

theorem exists_readMonitoringCheckpoint (db : Db) (asOf : Time) {actor : DelegatedActor}
    (hkeyed : codec.keyed = true)
    (hactor : authority.authorizeMonitoringService now principal = .ok actor) :
    ∃ checkpoint, readMonitoringCheckpoint codec authority db asOf now principal =
        .ok (checkpoint, db.feedState.headPosition, db.feedState.retiredThrough) ∧
      checkpoint.controlInstanceId = codec.controlInstance ∧
      checkpoint.recoveryEpoch = db.recovery.restoreEpoch := by
  simp only [readMonitoringCheckpoint, bind_ok_iff, ensure_ok_iff, pure_ok_iff]
  exact ⟨_, ⟨(), hkeyed, actor, hactor, rfl⟩, rfl, rfl⟩

/-- A page holds the events between the cursor it was given and the one it returns. -/
theorem readMonitoringEvents_ok {value : String} {limit : Int} {page : MonitoringEventPage}
    (h : readMonitoringEvents codec authority db asOf now principal value limit = .ok page) :
    ∃ cursor actor next, codec.decode value = some cursor ∧ principal.delegation = some actor ∧
      page.nextCursor = codec.encode { cursor with position := next } ∧
      db.feedState.retiredThrough ≤ cursor.position ∧ cursor.position ≤ next ∧
      next ≤ db.feedState.headPosition ∧
      (page.items.Pairwise fun a b => a.position < b.position) ∧
      ∀ event, event ∈ page.items ↔ ∃ row, db.feed.get? event.position = some row ∧
        row.namespaceId ∈ actor.namespaceIds ∧ cursor.position < event.position ∧
        event.position ≤ next ∧ event = row.event event.position := by
  simp only [readMonitoringEvents, bind_ok_iff, ensure_ok_iff, need_ok_iff, pure_ok_iff,
    Prod.exists] at h
  obtain ⟨-, hlimit, cursor, hcursor, checkpoint, head, floor, hcheckpoint, actor, hdelegation, -,
    -, -, -, -, hfloor, -, hhead, rfl⟩ := h
  obtain ⟨actor', hauthorized, rfl, rfl, -⟩ := readMonitoringCheckpoint_ok hcheckpoint
  obtain ⟨hdelegation', hnodup⟩ := authorizeMonitoringService_ok hauthorized
  cases hdelegation.symm.trans hdelegation'
  have hselected := selectedEvents_eq db actor.namespaceIds cursor.position
    db.feedState.headPosition hnodup (limit.toNat + 1)
  have hsorted := pairwise_scopedEvents db actor.namespaceIds cursor.position
    db.feedState.headPosition hnodup
  have hmem := mem_scopedEvents db actor.namespaceIds cursor.position db.feedState.headPosition
  simp only [hselected, List.take_take, Nat.min_eq_left (Nat.le_succ _), decide_eq_true_eq]
  generalize scopedEvents db actor.namespaceIds cursor.position db.feedState.headPosition = all
    at hsorted hmem ⊢
  have hbound : ∀ event ∈ all, cursor.position < event.position ∧
      event.position ≤ db.feedState.headPosition := by
    intro event hevent
    obtain ⟨_, -, -, hafter, hle, -⟩ := (hmem event).mp hevent
    exact ⟨hafter, hle⟩
  obtain ⟨next, hnext⟩ : ∃ next, next = if limit.toNat < (all.take (limit.toNat + 1)).length then
      (((all.take limit.toNat).getLast?).map (·.position)).getD db.feedState.headPosition
    else db.feedState.headPosition := ⟨_, rfl⟩
  obtain ⟨hend, hitems⟩ := page_bounds (by omega) hsorted
    (fun event hevent => (hbound event hevent).2) hnext
  rw [← hnext]
  have hrange : cursor.position ≤ next ∧ next ≤ db.feedState.headPosition := by
    obtain rfl | ⟨event, hevent, rfl⟩ := hend
    · exact ⟨hhead, Nat.le_refl _⟩
    · exact ⟨(hbound event hevent).1.le, (hbound event hevent).2⟩
  refine ⟨cursor, actor, next, hcursor, hdelegation, rfl, hfloor, hrange.1, hrange.2,
    hsorted.sublist (List.take_sublist _ _), ?_⟩
  intro event
  rw [hitems, hmem]
  constructor
  · rintro ⟨⟨row, hrow, hn, hafter, -, hevent⟩, hle⟩
    exact ⟨row, hrow, hn, hafter, hle, hevent⟩
  · rintro ⟨row, hrow, hn, hafter, hle, hevent⟩
    exact ⟨⟨row, hrow, hn, hafter, hle.trans hrange.2, hevent⟩, hle⟩

end JobmanControl
