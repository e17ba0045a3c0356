import JobmanControl.Store.Submission

/-!
What the two statements on the idempotency records do. A reservation inserts an
incomplete record or finds a completed one of the same request; a completion fills in
the record that was reserved.
-/

namespace JobmanControl

open Relational

variable {db db' : Db} {authorization : Authorization} {operation : IdempotentOperation}
  {resourceType : ResourceType} {key digest : String} {status : Nat} {replayed : Option Id}

def Authorization.record (authorization : Authorization) (operation : IdempotentOperation)
    (key : String) : IdempotencyKey :=
  ⟨authorization.namespaceId, authorization.principalId, operation, key⟩

theorem reserveIdempotency_cases
    (h : reserveIdempotency db authorization operation resourceType key digest status =
      .ok (replayed, db')) :
    operation.text.length ≤ 128 ∧
      ((replayed = none ∧ ∃ t, db.idempotency.insert? (authorization.record operation key)
          ⟨digest, resourceType, none⟩ = some t ∧ db' = { db with idempotency := t }) ∨
        ∃ response, db.idempotency.get? (authorization.record operation key) =
            some ⟨digest, resourceType, some response⟩ ∧
          response.status = status ∧ replayed = some response.resourceId ∧ db' = db) := by
  simp only [reserveIdempotency, bind_ok_iff, ensure_ok_iff] at h
  obtain ⟨-, hlength, h⟩ := h
  refine ⟨hlength, ?_⟩
  split at h
  · rename_i t hinsert
    cases h
    exact Or.inl ⟨rfl, t, hinsert, rfl⟩
  · simp only [bind_ok_iff, need_ok_iff, ensure_ok_iff, pure_ok_iff, Prod.mk.injEq] at h
    obtain ⟨row, hrow, -, rfl, response, hresponse, -, ⟨rfl, hstatus⟩, hreplayed, rfl⟩ := h
    obtain ⟨_, _, _⟩ := row
    cases hresponse
    exact Or.inr ⟨response, hrow, hstatus, hreplayed.symm, rfl⟩

/-- Reserving a key writes the idempotency table only. -/
theorem reserveIdempotency_ok
    (h : reserveIdempotency db authorization operation resourceType key digest status =
      .ok (replayed, db')) : ∃ t, db' = { db with idempotency := t } := by
  obtain ⟨-, ⟨-, t, -, rfl⟩ | ⟨_, -, -, -, rfl⟩⟩ := reserveIdempotency_cases h
  · exact ⟨t, rfl⟩
  · exact ⟨db'.idempotency, rfl⟩

theorem reserveIdempotency_free
    (h : reserveIdempotency db authorization operation resourceType key digest status =
      .ok (replayed, db'))
    (hfree : db.idempotency.get?
      ⟨authorization.namespaceId, authorization.principalId, operation, key⟩ = none) :
    replayed = none := by
  obtain ⟨-, ⟨hnone, -⟩ | ⟨_, hrow, -⟩⟩ := reserveIdempotency_cases h
  · exact hnone
  · cases hfree.symm.trans hrow

theorem insertOutbox_ok {env : Env} {id namespaceId : Id} {message : OutboxMessage}
    (h : db.insertOutbox env id namespaceId message = .ok db') :
    ∃ outbox, db' = { db with outbox := outbox } := by
  simp only [Db.insertOutbox, bind_ok_iff, pure_ok_iff] at h
  obtain ⟨outbox, -, rfl⟩ := h
  exact ⟨outbox, rfl⟩

theorem completeIdempotency_ok {env : Env} {resourceId : Id}
    (h : completeIdempotency env db authorization operation key resourceId status = .ok db') :
    ∃ t, db' = { db with idempotency := t } := by
  simp only [completeIdempotency, bind_ok_iff, pure_ok_iff] at h
  obtain ⟨_, -, _, -, rfl⟩ := h
  exact ⟨_, rfl⟩

/-- A free key is reserved, and what was reserved is then completed, whatever other tables
were written in between. -/
theorem reserve_complete_fresh (env : Env) (resourceId : Id) (resourceType : ResourceType)
    (digest : String) (status : Nat) (hlength : operation.text.length ≤ 128)
    (hfree : db.idempotency.get? (authorization.record operation key) = none) :
    ∃ t, reserveIdempotency db authorization operation resourceType key digest status =
        .ok (none, { db with idempotency := t }) ∧
      ∀ db₁ : Db, db₁.idempotency = t → ∃ t',
        completeIdempotency env db₁ authorization operation key resourceId status =
          .ok { db₁ with idempotency := t' } := by
  obtain ⟨t, hinsert⟩ := Table.insert?_isSome db.idempotency (authorization.record operation key)
    ⟨digest, resourceType, none⟩ hfree
  have hreserved : t.get? (authorization.record operation key) =
      some ⟨digest, resourceType, none⟩ := by
    rw [Table.get?_insert hinsert, if_pos rfl]
  unfold Authorization.record at hinsert hreserved
  refine ⟨t, ?_, ?_⟩
  · rw [reserveIdempotency, ensure_of_true (by simpa using hlength), ok_bind]
    rw [hinsert]
  · intro db₁ hdb₁
    rw [completeIdempotency, hdb₁, need_of_eq_some hreserved, ok_bind, ensure_of_true (by simp),
      ok_bind]
    exact ⟨_, rfl⟩

theorem reserve_complete_get? {env : Env} {resourceId : Id} {db₁ db₂ db₃ : Db}
    (hreserve : reserveIdempotency db authorization operation resourceType key digest status =
      .ok (none, db₁))
    (hcomplete : completeIdempotency env db₂ authorization operation key resourceId status =
      .ok db₃) (hsame : db₂.idempotency = db₁.idempotency) (k : IdempotencyKey) :
    db₃.idempotency.get? k = if k = authorization.record operation key then
      some ⟨digest, resourceType, some ⟨resourceId, status, env.now⟩⟩
      else db.idempotency.get? k := by
  obtain ⟨-, ⟨-, t, hinsert, rfl⟩ | ⟨_, -, -, hfalse, -⟩⟩ := reserveIdempotency_cases hreserve
  · simp only [completeIdempotency, bind_ok_iff, pure_ok_iff] at hcomplete
    obtain ⟨_, -, _, -, rfl⟩ := hcomplete
    have hget := Table.get?_insert hinsert
    unfold Authorization.record at hget ⊢
    dsimp only at hsame ⊢
    rw [hsame, Table.get?_modify, hget]
    split <;> rfl
  · cases hfalse

/-- A key that was completed for the same request is answered with its resource. -/
theorem reserveIdempotency_completed {response : IdempotentResponse}
    (hlength : operation.text.length ≤ 128) (hstatus : response.status = status)
    (hrow : db.idempotency.get? (authorization.record operation key) =
      some ⟨digest, resourceType, some response⟩) :
    reserveIdempotency db authorization operation resourceType key digest status =
      .ok (some response.resourceId, db) := by
  have htaken : db.idempotency.insert? (authorization.record operation key)
      ⟨digest, resourceType, none⟩ = none := (Table.insert?_eq_none_iff _ _ _).mpr ⟨_, hrow⟩
  unfold Authorization.record at hrow htaken
  rw [reserveIdempotency, ensure_of_true hlength, ok_bind]
  simp only [htaken, need_of_eq_some hrow, ok_bind, ensure_of_true trivial]
  rw [need_of_eq_some rfl, ok_bind, ensure_of_true ⟨trivial, hstatus⟩, ok_bind]
  rfl

theorem getJobById_id {namespaceId jobId : Id} {job : Job}
    (h : getJobById db namespaceId jobId = .ok job) : job.id = jobId := by
  simp only [getJobById, bind_ok_iff, pure_ok_iff] at h
  obtain ⟨_, -, _, -, rfl⟩ := h
  rfl

end JobmanControl
