import JobmanControl.Catalog.Keyring
import JobmanControl.Catalog.Suitability
import JobmanControl.Library.Session

/-!
Credentials that are presented at the same time. An enrollment locks the row of its token, a
renewal the row of its session and a rotation the row of its certificate. A statement that
had to wait reads the row again as it is now, and the rows it is joined with as they were
when the statement began. That is enough for a token to admit one agent, and for a session
or a certificate to be replaced once.
-/

namespace JobmanControl

open Relational Interleaving

variable {scheme : TokenScheme} {db : Db} {session : AgentSession} {binding : EnrollmentBinding}

inductive CredentialRequest
  | enrollAgent (enrollmentToken : String) (registration : AgentRegistration)
      (sessionLifetime : Nat) (agentId sessionId : Id)
  | renewAgentSession (currentToken : String) (sessionLifetime : Nat) (newSessionId : Id)
  | rotateAgentCertificate (identity : AgentIdentity) (currentSerial : String)
      (certificate : AgentCertificate)

structure CredentialCall where
  env : Env
  request : CredentialRequest

inductive CredentialAnswer
  | session (session : AgentSession)
  | rotated
  deriving DecidableEq

inductive CredentialKey
  | token (enrollmentId : Id)
  | session (sessionId : Id)
  | certificate (serial : String)
  deriving DecidableEq

/-- How far a call has come. -/
inductive CredentialStage
  | starting
  /-- The statement has begun with this store and waits for its row. -/
  | waiting (seen : Db)
  /-- The statement has got its row, as it is in the second store. -/
  | locked (seen now : Db)

structure CredentialSession where
  call : CredentialCall
  stage : CredentialStage

structure Presented where
  call : CredentialCall
  answer : Except StoreError CredentialAnswer
  found : Db
  left : Db

structure CredentialState where
  db : Db
  presented : List Presented

/-- What `lookupEnrollmentForUpdate` returns: the token as it is now, if it still matches
the target and generation the statement began with. -/
def lockEnrollment (seen now : Db) (tokenHash : String) : Option EnrollmentBinding := do
  let binding ← lookupEnrollment seen tokenHash
  let row ← now.enrollmentTokens.get? binding.enrollmentId
  guard (row.tokenHash = tokenHash ∧ row.targetId = binding.token.targetId ∧
    row.targetGenerationId = binding.token.targetGenerationId)
  pure { binding with token := row }

/-- What the lock statement of a renewal returns: the session as it is now, if it still is
in force and its agent's. -/
def lockSession (seen now : Db) (env : Env) (tokenHash : String) :
    Option ((Id × SessionRow) × AgentRow) := do
  let found ← servingSession env seen tokenHash
  let row ← now.sessions.get? found.1.1
  guard (row.tokenHash = tokenHash ∧ row.revokedAt = none ∧ env.now < row.expiresAt ∧
    row.agentId = found.1.2.agentId)
  pure ((found.1.1, row), found.2)

/-- The row the update of a rotation finds: one that was there when it began, or the one its
own transaction has added. -/
def updatedCertificate (seen : Db) (added : String) (certificates : Table String CertificateRow)
    (serial : String) : Option CertificateRow :=
  if (seen.certificates.get? serial).isSome || serial = added then certificates.get? serial
  else none

namespace CredentialCall

variable (scheme : TokenScheme) (call : CredentialCall)

def wanted (seen : Db) : Option CredentialKey :=
  match call.request with
  | .enrollAgent token _ _ _ _ =>
      (lookupEnrollment seen (scheme.hash token)).map fun binding => .token binding.enrollmentId
  | .renewAgentSession token _ _ =>
      (servingSession call.env seen (scheme.hash token)).map fun found => .session found.1.1
  | .rotateAgentCertificate _ serial _ =>
      (seen.certificates.get? serial).map fun _ => .certificate serial

/-- The transaction, with the row its lock statement returned. -/
def tx (seen now : Db) : Tx StoreError Db CredentialAnswer := fun db =>
  match call.request with
  | .enrollAgent token registration lifetime agentId sessionId => do
      let (session, db) ← enrollAgentWith (fun _ => lockEnrollment seen now) scheme call.env token
        registration lifetime agentId sessionId db
      pure (.session session, db)
  | .renewAgentSession token lifetime sessionId => do
      let (session, db) ← renewAgentSessionWith (fun env _ => lockSession seen now env) scheme
        call.env token lifetime sessionId db
      pure (.session session, db)
  | .rotateAgentCertificate identity serial certificate => do
      let ((), db) ← rotateAgentCertificateWith (updatedCertificate seen certificate.serial)
        call.env identity serial certificate db
      pure (.rotated, db)

def present (seen now db : Db) : Presented :=
  ⟨call, (call.tx scheme seen now db).map Prod.fst, db, atomically (call.tx scheme seen now) db⟩

end CredentialCall

def CredentialKey.same (db db' : Db) : CredentialKey → Bool
  | .token e => db.enrollmentTokens.get? e = db'.enrollmentTokens.get? e
  | .session s => db.sessions.get? s = db'.sessions.get? s
  | .certificate serial => db.certificates.get? serial = db'.certificates.get? serial

/-- The calls that present credentials as sessions, next to all calls on the store. -/
def presenting (platform : Platform) :
    Protocol CredentialState CredentialSession CredentialCall ServiceCall CredentialKey where
  call call state := { state with db := call.apply platform state.db }
  start call := ⟨call, .starting⟩
  wants _ _ session :=
    match session.stage with
    | .waiting seen => (session.call.wanted platform.tokens seen).toList
    | .starting | .locked _ _ => []
  advance _ state session :=
    { session with
      stage :=
        match session.stage with
        | .starting => .waiting state.db
        | .waiting seen => .locked seen state.db
        | .locked seen now => .locked seen now }
  commit session state :=
    match session.stage with
    | .locked seen now =>
        let presented := session.call.present platform.tokens seen now state.db
        some ⟨presented.left, presented :: state.presented⟩
    | .starting | .waiting _ => none
  same key state state' := key.same state.db state'.db

abbrev CredentialWorld := World CredentialState CredentialSession CredentialKey

variable {s : Id} {serial token : String}

namespace Presented

def Enrolled (p : Presented) (token : String) (registration : AgentRegistration)
    (session : AgentSession) : Prop :=
  (∃ lifetime a s, p.call.request = .enrollAgent token registration lifetime a s) ∧
    p.answer = .ok (.session session)

def Renewed (p : Presented) (token : String) : Prop :=
  (∃ lifetime s, p.call.request = .renewAgentSession token lifetime s) ∧
    ∃ answer, p.answer = .ok answer

def Rotated (p : Presented) (serial : String) : Prop :=
  (∃ identity certificate, p.call.request = .rotateAgentCertificate identity serial certificate) ∧
    ∃ answer, p.answer = .ok answer

/-- The credential the call was answered for is used up. -/
structure Standing (scheme : TokenScheme) (b : Keyring) (p : Presented) : Prop where
  enrolled : ∀ token registration session, p.Enrolled token registration session →
    ∃ e t x, b.token e = some t ∧ t.hash = scheme.hash token ∧
      t.usedBy = some session.agentId ∧ b.agent session.agentId = some x ∧
      x.registrationDigest = registration.requestDigest
  renewed : ∀ token, p.Renewed token →
    ∃ s t, b.session s = some t ∧ t.hash = scheme.hash token ∧ t.revoked = true
  rotated : ∀ serial, p.Rotated serial → b.certificate serial = some true

theorem Standing.extend {b b' : Keyring} {p : Presented} (h : p.Standing scheme b)
    (hextends : b.Extends b') : p.Standing scheme b' := by
  refine ⟨?_, ?_, ?_⟩
  · intro token registration session henrolled
    obtain ⟨e, t, x, ht, hhash, hused, hx, hdigest⟩ := h.enrolled _ _ _ henrolled
    obtain ⟨t', ht', hhash', hused'⟩ := hextends.token e t ht
    refine ⟨e, t', x, ht', hhash'.trans hhash, ?_, hextends.agent _ x hx, hdigest⟩
    rw [hused' (by rw [hused]; exact Option.some_ne_none _), hused]
  · intro token hrenewed
    obtain ⟨s, t, ht, hhash, hrevoked⟩ := h.renewed token hrenewed
    obtain ⟨t', ht', hhash', hrevoked'⟩ := hextends.session s t ht
    exact ⟨s, t', ht', hhash'.trans hhash, hrevoked' hrevoked⟩
  · exact fun serial hrotated => hextends.certificate serial (h.rotated serial hrotated)

/-- An enrollment with a token that was used before changes nothing, and is answered, if at
all, with the session of the agent that used it, for the digest of that agent. -/
def Repeats (scheme : TokenScheme) (p : Presented) : Prop :=
  ∀ token registration lifetime a s, p.call.request = .enrollAgent token registration lifetime a s →
    ∀ e row use, p.found.enrollmentTokens.get? e = some row → row.tokenHash = scheme.hash token →
      row.used = some use → p.left = p.found ∧
        ∀ answer, p.answer = .ok answer → ∃ session agent sessionRow, answer = .session session ∧
          session.replayed = true ∧ session.agentId = use.usedByAgentId ∧
          p.found.agents.get? session.agentId = some agent ∧
          agent.registrationDigest = registration.requestDigest ∧
          p.found.sessions.get? session.sessionId = some sessionRow ∧
          sessionRow.agentId = session.agentId ∧ sessionRow.revokedAt = none ∧
          sessionRow.tokenHash = scheme.hash session.token

structure Proper (scheme : TokenScheme) (p : Presented) : Prop where
  moves : Keyring.Moves scheme p.found.keyring p.left.keyring
  standing : p.Standing scheme p.left.keyring
  repeats : p.Repeats scheme
  fresh : ∀ token registration session, p.Enrolled token registration session →
    session.replayed = true ∨
      ∃ e t, p.found.keyring.token e = some t ∧ t.hash = scheme.hash token ∧ t.usedBy = none
  inForce : ∀ token, p.Renewed token →
    ∃ s t, p.found.keyring.session s = some t ∧ t.hash = scheme.hash token ∧ t.revoked = false
  valid : ∀ serial, p.Rotated serial → p.found.keyring.certificate serial ≠ some true

/-- Two calls, of which the second was answered first, have not used up one credential. -/
structure Sole (p q : Presented) : Prop where
  enrolled : ∀ token r r' session session', p.Enrolled token r session →
    q.Enrolled token r' session' → session.replayed = true
  renewed : ∀ token, p.Renewed token → ¬q.Renewed token
  rotated : ∀ serial, p.Rotated serial → ¬q.Rotated serial

theorem Proper.sole {p q : Presented} (h : p.Proper scheme) (hsound : p.found.keyring.Sound scheme)
    (hq : q.Standing scheme p.found.keyring) :
    p.Sole q := by
  refine ⟨?_, ?_, ?_⟩
  · intro token r r' session session' hp hq'
    obtain hreplayed | ⟨e, t, ht, hhash, hunused⟩ := h.fresh _ _ _ hp
    · exact hreplayed
    · obtain ⟨e', t', -, ht', hhash', hused, -, -⟩ := hq.enrolled _ _ _ hq'
      cases hsound.tokens e e' t t' ht ht' (hhash.trans hhash'.symm)
      cases ht.symm.trans ht'
      rw [hunused] at hused
      cases hused
  · intro token hp hq'
    obtain ⟨s, t, ht, hhash, hlive⟩ := h.inForce token hp
    obtain ⟨s', t', ht', hhash', hrevoked⟩ := hq.renewed token hq'
    cases hsound.sessions s s' t t' ht ht' (hhash.trans hhash'.symm)
    cases ht.symm.trans ht'
    rw [hlive] at hrevoked
    cases hrevoked
  · exact fun serial hp hq' => h.valid serial hp (hq.rotated serial hq')

end Presented

section Commit

variable {env : Env} {seen now db' : Db} {call : CredentialCall}

theorem replayEnrollment_ok {agentId : Id} {digest : String}
    (h : replayEnrollment scheme env db agentId digest = .ok session) :
    ∃ agent row, session.replayed = true ∧ session.agentId = agentId ∧
      session.token = scheme.derive "jms" session.sessionId ∧
      db.agents.get? agentId = some agent ∧ agent.registrationDigest = digest ∧
      db.sessions.get? session.sessionId = some row ∧ row.agentId = agentId ∧
      row.revokedAt = none := by
  simp only [replayEnrollment, bind_ok_iff, need_ok_iff, ensure_ok_iff, pure_ok_iff,
    Prod.exists] at h
  obtain ⟨agent, hagent, sessionId, row, hfirst, -, hdigest, rfl⟩ := h
  have hmem := firstBy_mem hfirst
  simp only [Table.mem_select, Bool.and_eq_true, decide_eq_true_eq] at hmem
  exact ⟨agent, row, rfl, rfl, rfl, hagent, hdigest, hmem.1, hmem.2.1.1, hmem.2.1.2⟩

theorem lockEnrollment_token {hash : String} (h : lockEnrollment seen now hash = some binding) :
    (lookupEnrollment seen hash).map (fun found => CredentialKey.token found.enrollmentId) =
        some (.token binding.enrollmentId) ∧
      now.enrollmentTokens.get? binding.enrollmentId = some binding.token ∧
      binding.token.tokenHash = hash := by
  simp only [lockEnrollment, Option.bind_eq_bind, Option.bind_eq_some_iff, Option.pure_def,
    Option.some.injEq, Option.guard_eq_some'] at h
  obtain ⟨found, hfound, row, hrow, -, ⟨hhash, -, -⟩, rfl⟩ := h
  exact ⟨by rw [hfound]; rfl, hrow, hhash⟩

theorem lockSession_row {hash : String} {row : SessionRow} {agent : AgentRow}
    (h : lockSession seen now env hash = some ((s, row), agent)) :
    (servingSession env seen hash).map (fun found => CredentialKey.session found.1.1) =
        some (.session s) ∧
      now.sessions.get? s = some row ∧ row.tokenHash = hash ∧ row.revokedAt = none := by
  simp only [lockSession, Option.bind_eq_bind, Option.bind_eq_some_iff, Option.pure_def,
    Option.some.injEq, Option.guard_eq_some', Prod.mk.injEq] at h
  obtain ⟨found, hfound, row, hrow, -, ⟨hhash, hlive, -⟩, ⟨rfl, rfl⟩, -⟩ := h
  exact ⟨by rw [hfound]; rfl, hrow, hhash, hlive⟩

theorem updatedCertificate_row {added : String} {certificates : Table String CertificateRow}
    {row : CertificateRow} (h : updatedCertificate seen added certificates serial = some row) :
    certificates.get? serial = some row := by
  simp only [updatedCertificate, Option.ite_none_right_eq_some] at h
  exact h.2

variable {p : Presented}

theorem Presented.proper_of_refused {error : StoreError} (hanswer : p.answer = .error error)
    (hleft : p.left = p.found) : p.Proper scheme := by
  have hnone : ∀ answer, p.answer ≠ .ok answer := by
    intro answer h
    cases hanswer.symm.trans h
  refine ⟨Or.inl (congrArg Db.keyring hleft), ⟨?_, ?_, ?_⟩, ?_, ?_, ?_, ?_⟩
  · exact fun _ _ _ h => absurd h.2 (hnone _)
  · rintro _ ⟨-, _, h⟩
    exact absurd h (hnone _)
  · rintro _ ⟨-, _, h⟩
    exact absurd h (hnone _)
  · exact fun _ _ _ _ _ _ _ _ _ _ _ _ => ⟨hleft, fun _ h => absurd h (hnone _)⟩
  · exact fun _ _ _ h => absurd h.2 (hnone _)
  · rintro _ ⟨-, _, h⟩
    exact absurd h (hnone _)
  · rintro _ ⟨-, _, h⟩
    exact absurd h (hnone _)

theorem Presented.proper_of_enrollment {registration : AgentRegistration} {lifetime : Nat} {a : Id}
    (hrequest : p.call.request = .enrollAgent token registration lifetime a s)
    (hanswer : p.answer = .ok (.session session)) (hsound : p.found.keyring.Sound scheme)
    (hrow : p.found.enrollmentTokens.get? binding.enrollmentId = some binding.token)
    (hhash : binding.token.tokenHash = scheme.hash token)
    (houtcome : EnrollmentOutcome scheme env registration binding p.found p.left session) :
    p.Proper scheme := by
  have hentry : p.found.keyring.token binding.enrollmentId = some binding.token.entry :=
    congrArg (Option.map EnrollmentTokenRow.entry) hrow
  have hrenewed : ∀ token, ¬p.Renewed token := by
    rintro _ ⟨⟨_, _, h⟩, -⟩
    cases hrequest.symm.trans h
  have hrotated : ∀ serial, ¬p.Rotated serial := by
    rintro _ ⟨⟨_, _, h⟩, -⟩
    cases hrequest.symm.trans h
  have henrolled : ∀ token' registration' session', p.Enrolled token' registration' session' →
      token' = token ∧ registration' = registration ∧ session' = session := by
    rintro _ _ _ ⟨⟨_, _, _, h⟩, hanswer'⟩
    cases hrequest.symm.trans h
    cases hanswer.symm.trans hanswer'
    exact ⟨rfl, rfl, rfl⟩
  -- The token that was locked is the only one with its hash.
  have hsole : ∀ e row, p.found.enrollmentTokens.get? e = some row →
      row.tokenHash = scheme.hash token → row = binding.token := by
    intro e row he hrowHash
    have he' : p.found.keyring.token e = some row.entry :=
      congrArg (Option.map EnrollmentTokenRow.entry) he
    cases hsound.tokens _ _ _ _ he' hentry (hrowHash.trans hhash.symm)
    exact Option.some.inj (he.symm.trans hrow)
  cases houtcome with
  | replayed use huse hleft hreplay =>
      obtain ⟨agent, row, hreplayed, hagentId, htoken, hagent, hdigest, hsession, howner, hlive⟩ :=
        replayEnrollment_ok hreplay
      refine ⟨Or.inl (congrArg Db.keyring hleft), ⟨?_, ?_, ?_⟩, ?_, ?_, ?_, ?_⟩
      · rintro _ _ _ h
        obtain ⟨rfl, rfl, rfl⟩ := henrolled _ _ _ h
        rw [hleft, hagentId]
        refine ⟨_, _, agent.entry, hentry, hhash, ?_, ?_, hdigest⟩
        · exact congrArg (Option.map TokenUse.usedByAgentId) huse
        · exact congrArg (Option.map AgentRow.entry) hagent
      · exact fun _ h => absurd h (hrenewed _)
      · exact fun _ h => absurd h (hrotated _)
      · intro _ _ _ _ _ hrequest' e row' use' he hrowHash huse'
        cases hrequest.symm.trans hrequest'
        cases hsole e row' he hrowHash
        cases huse.symm.trans huse'
        refine ⟨hleft, ?_⟩
        intro answer hanswer'
        cases hanswer.symm.trans hanswer'
        have hderived := hsound.derived _ _ (congrArg (Option.map SessionRow.entry) hsession)
        exact ⟨session, agent, row, rfl, hreplayed, hagentId, hagentId ▸ hagent, hdigest, hsession,
          howner.trans hagentId.symm, hlive, htoken ▸ hderived⟩
      · intro _ _ _ h
        obtain ⟨-, -, rfl⟩ := henrolled _ _ _ h
        exact Or.inl hreplayed
      · exact fun _ h => absurd h (hrenewed _)
      · exact fun _ h => absurd h (hrotated _)
  | used hunused hfresh hstep htoken hagent =>
      refine ⟨Or.inr hstep, ⟨?_, ?_, ?_⟩, ?_, ?_, ?_, ?_⟩
      · rintro _ _ _ h
        obtain ⟨rfl, rfl, rfl⟩ := henrolled _ _ _ h
        exact ⟨_, _, _, htoken, hhash, rfl, hagent, rfl⟩
      · exact fun _ h => absurd h (hrenewed _)
      · exact fun _ h => absurd h (hrotated _)
      · intro _ _ _ _ _ hrequest' e row use he hrowHash huse
        cases hrequest.symm.trans hrequest'
        cases hsole e row he hrowHash
        cases hunused.symm.trans huse
      · intro _ _ _ h
        obtain ⟨rfl, -, -⟩ := henrolled _ _ _ h
        exact Or.inr ⟨_, _, hentry, hhash, congrArg (Option.map TokenUse.usedByAgentId) hunused⟩
      · exact fun _ h => absurd h (hrenewed _)
      · exact fun _ h => absurd h (hrotated _)

theorem Presented.proper_of_renewal {lifetime : Nat} {s' : Id} {row : SessionRow}
    (hrequest : p.call.request = .renewAgentSession token lifetime s')
    (hrow : p.found.sessions.get? s = some row) (hhash : row.tokenHash = scheme.hash token)
    (hlive : row.revokedAt = none) (hstep : Keyring.Step scheme p.found.keyring p.left.keyring)
    (hrevoked : p.left.keyring.session s = some { row.entry with revoked := true }) :
    p.Proper scheme := by
  have henrolled : ∀ token registration session, ¬p.Enrolled token registration session := by
    rintro _ _ _ ⟨⟨_, _, _, h⟩, -⟩
    cases hrequest.symm.trans h
  have hrotated : ∀ serial, ¬p.Rotated serial := by
    rintro _ ⟨⟨_, _, h⟩, -⟩
    cases hrequest.symm.trans h
  have hrenewed : ∀ token', p.Renewed token' → token' = token := by
    rintro _ ⟨⟨_, _, h⟩, -⟩
    cases hrequest.symm.trans h
    rfl
  refine ⟨Or.inr hstep, ⟨?_, ?_, ?_⟩, ?_, ?_, ?_, ?_⟩
  · exact fun _ _ _ h => absurd h (henrolled _ _ _)
  · intro _ h
    obtain rfl := hrenewed _ h
    exact ⟨s, _, hrevoked, hhash, rfl⟩
  · exact fun _ h => absurd h (hrotated _)
  · intro _ _ _ _ _ h
    cases hrequest.symm.trans h
  · exact fun _ _ _ h => absurd h (henrolled _ _ _)
  · intro _ h
    obtain rfl := hrenewed _ h
    exact ⟨s, row.entry, congrArg (Option.map SessionRow.entry) hrow, hhash,
      congrArg Option.isSome hlive⟩
  · exact fun _ h => absurd h (hrotated _)

theorem Presented.proper_of_rotation {identity : AgentIdentity} {certificate : AgentCertificate}
    (hrequest : p.call.request = .rotateAgentCertificate identity serial certificate)
    (hvalid : p.found.keyring.certificate serial ≠ some true)
    (hstep : Keyring.Step scheme p.found.keyring p.left.keyring)
    (hrevoked : p.left.keyring.certificate serial = some true) : p.Proper scheme := by
  have henrolled : ∀ token registration session, ¬p.Enrolled token registration session := by
    rintro _ _ _ ⟨⟨_, _, _, h⟩, -⟩
    cases hrequest.symm.trans h
  have hrenewed : ∀ token, ¬p.Renewed token := by
    rintro _ ⟨⟨_, _, h⟩, -⟩
    cases hrequest.symm.trans h
  have hrotated : ∀ serial', p.Rotated serial' → serial' = serial := by
    rintro _ ⟨⟨_, _, h⟩, -⟩
    cases hrequest.symm.trans h
    rfl
  refine ⟨Or.inr hstep, ⟨?_, ?_, ?_⟩, ?_, ?_, ?_, ?_⟩
  · exact fun _ _ _ h => absurd h (henrolled _ _ _)
  · exact fun _ h => absurd h (hrenewed _)
  · intro _ h
    obtain rfl := hrotated _ h
    exact hrevoked
  · intro _ _ _ _ _ h
    cases hrequest.symm.trans h
  · exact fun _ _ _ h => absurd h (henrolled _ _ _)
  · exact fun _ h => absurd h (hrenewed _)
  · intro _ h
    obtain rfl := hrotated _ h
    exact hvalid

theorem CredentialCall.present_proper (hsound : db.keyring.Sound scheme)
    (hlocked : ∀ k, call.wanted scheme seen = some k → k.same now db = true) :
    (call.present scheme seen now db).Proper scheme := by
  cases htx : call.tx scheme seen now db with
  | error error =>
      refine Presented.proper_of_refused (by rw [present, htx]; rfl) ?_
      rw [present, atomically, htx]
  | ok result =>
      obtain ⟨answer, db'⟩ := result
      have hpresent : call.present scheme seen now db = ⟨call, .ok answer, db, db'⟩ := by
        rw [present, atomically_of_ok htx, htx]
        rfl
      rw [hpresent]
      obtain ⟨env, request⟩ := call
      cases request with
      | enrollAgent token registration lifetime a s =>
          simp only [tx, bind_ok_iff, pure_ok_iff, Prod.exists, Prod.mk.injEq] at htx
          obtain ⟨session, _, htx, rfl, rfl⟩ := htx
          have hrow : ∀ binding, lockEnrollment seen now (scheme.hash token) = some binding →
              db.enrollmentTokens.get? binding.enrollmentId = some binding.token := by
            intro binding hbinding
            obtain ⟨hwanted, hnow, -⟩ := lockEnrollment_token hbinding
            exact (of_decide_eq_true (hlocked _ hwanted)).symm.trans hnow
          obtain ⟨binding, hbinding, houtcome⟩ := enrollAgentWith_outcome htx hrow
          exact Presented.proper_of_enrollment rfl rfl hsound (hrow binding hbinding)
            (lockEnrollment_token hbinding).2.2 houtcome
      | renewAgentSession token lifetime s' =>
          simp only [tx, bind_ok_iff, pure_ok_iff, Prod.exists, Prod.mk.injEq] at htx
          obtain ⟨session, _, htx, rfl, rfl⟩ := htx
          have hrow : ∀ s row agent, lockSession seen now env (scheme.hash token) =
              some ((s, row), agent) → db.sessions.get? s = some row ∧ row.revokedAt = none := by
            intro s row agent hfound
            obtain ⟨hwanted, hnow, -, hlive⟩ := lockSession_row hfound
            exact ⟨(of_decide_eq_true (hlocked _ hwanted)).symm.trans hnow, hlive⟩
          obtain ⟨s, row, agent, hfound, hstep, hrevoked⟩ := renewAgentSessionWith_moves htx hrow
          obtain ⟨hsession, hlive⟩ := hrow s row agent hfound
          exact Presented.proper_of_renewal rfl hsession (lockSession_row hfound).2.2.1 hlive
            hstep hrevoked
      | rotateAgentCertificate identity serial certificate =>
          simp only [tx, bind_ok_iff, pure_ok_iff, Prod.exists, Prod.mk.injEq] at htx
          obtain ⟨_, _, htx, rfl, rfl⟩ := htx
          obtain ⟨hvalid, hstep, hrevoked⟩ := rotateAgentCertificateWith_moves scheme htx
            fun _ _ hfound => updatedCertificate_row hfound
          exact Presented.proper_of_rotation rfl hvalid hstep hrevoked

end Commit

/-- What holds of the store and of the calls answered so far. -/
structure CredentialState.Governed (scheme : TokenScheme) (state : CredentialState) : Prop where
  sound : state.db.keyring.Sound scheme
  standing : ∀ p ∈ state.presented, p.Standing scheme state.db.keyring
  repeats : ∀ p ∈ state.presented, p.Repeats scheme
  sole : state.presented.Pairwise Presented.Sole

/-- The row of a call that has locked it is as the call has found it. -/
def RowKept (platform : Platform) (state : CredentialState)
    (s : Session CredentialSession CredentialKey) : Prop :=
  ∀ seen now, s.state.stage = .locked seen now →
    ∀ k, s.state.call.wanted platform.tokens seen = some k →
      k ∈ s.held ∧ k.same now state.db = true

section Runs

variable {platform : Platform} {state state' : CredentialState}

theorem CredentialKey.same_refl (db : Db) (k : CredentialKey) : k.same db db = true := by
  cases k <;> exact decide_eq_true rfl

theorem CredentialKey.same_trans {db₁ db₂ db₃ : Db} {k : CredentialKey}
    (h : k.same db₁ db₂ = true) (h' : k.same db₂ db₃ = true) : k.same db₁ db₃ = true := by
  cases k <;>
    exact decide_eq_true ((of_decide_eq_true h).trans (of_decide_eq_true h'))

theorem RowKept.frame {s : Session CredentialSession CredentialKey}
    (h : RowKept platform state s)
    (hsame : ∀ k ∈ s.held, k.same state.db state'.db = true) : RowKept platform state' s := by
  intro seen now hstage k hk
  obtain ⟨hheld, hkept⟩ := h seen now hstage k hk
  exact ⟨hheld, CredentialKey.same_trans hkept (hsame k hheld)⟩

theorem CredentialState.Governed.moves (h : state.Governed platform.tokens)
    (hmoves : Keyring.Moves platform.tokens state.db.keyring state'.db.keyring)
    (hsame : state'.presented = state.presented) : state'.Governed platform.tokens := by
  refine ⟨hmoves.sound h.sound, ?_, hsame ▸ h.repeats, hsame ▸ h.sole⟩
  intro p hp
  exact (h.standing p (hsame ▸ hp)).extend hmoves.extend

theorem CredentialState.Governed.answered (h : state.Governed platform.tokens) {p : Presented}
    (hproper : p.Proper platform.tokens) (hfound : p.found = state.db) :
    CredentialState.Governed platform.tokens ⟨p.left, p :: state.presented⟩ := by
  have hmoves : Keyring.Moves platform.tokens state.db.keyring p.left.keyring :=
    hfound ▸ hproper.moves
  refine ⟨hmoves.sound h.sound, ?_, ?_, List.pairwise_cons.mpr ⟨?_, h.sole⟩⟩
  · intro q hq
    obtain rfl | hq := List.mem_cons.mp hq
    · exact hproper.standing
    · exact (h.standing q hq).extend hmoves.extend
  · intro q hq
    obtain rfl | hq := List.mem_cons.mp hq
    · exact hproper.repeats
    · exact h.repeats q hq
  · exact fun q hq => hproper.sole (hfound ▸ h.sound) (hfound ▸ h.standing q hq)

theorem presenting_maintains : (presenting platform).Maintains (fun _ _ => True)
    (CredentialState.Governed platform.tokens) (RowKept platform) where
  start _ _ _ := fun _ _ hstage => by cases hstage
  advance w i s hw _ hs := by
    have hkept := hw.sessions i s hs
    obtain ⟨⟨call, stage⟩, held⟩ := s
    cases stage with
    | starting => exact fun _ _ hstage => by cases hstage
    | waiting seen =>
        intro _ _ hstage k hk
        cases hstage
        refine ⟨List.mem_append_right _ ?_, CredentialKey.same_refl _ k⟩
        exact Option.mem_toList.mpr hk
    | locked seen now =>
        intro _ _ hstage k hk
        cases hstage
        obtain ⟨hheld, hsame⟩ := hkept seen now rfl k hk
        exact ⟨List.mem_append_left _ hheld, hsame⟩
  call w call hw _ := hw.committed.moves (call.keyring platform w.committed.db) rfl
  frame_call _ _ _ _ _ hkept hsame := hkept.frame hsame
  commit w i s new hw _ hs hcommit := by
    have hkept := hw.sessions i s hs
    obtain ⟨⟨call, stage⟩, held⟩ := s
    cases stage with
    | starting | waiting => cases hcommit
    | locked seen now =>
        cases hcommit
        refine hw.committed.answered ?_ rfl
        exact CredentialCall.present_proper hw.committed.sound
          fun k hk => (hkept seen now rfl k hk).2
  frame_commit _ _ _ _ _ _ _ _ _ hkept hsame _ := hkept.frame hsame

end Runs

theorem Presented.Standing.servingSession_eq_none {p : Presented} (h : p.Standing scheme db.keyring)
    (hsound : db.keyring.Sound scheme) (hrenewed : p.Renewed token) (env : Env) :
    servingSession env db (scheme.hash token) = none := by
  refine Option.eq_none_iff_forall_not_mem.mpr ?_
  rintro ⟨⟨s, row⟩, agent⟩ hfound
  obtain ⟨hrow, hhash, hlive⟩ := servingSession_row hfound
  obtain ⟨s', t, ht, hhash', hrevoked⟩ := h.renewed token hrenewed
  have hentry : db.keyring.session s = some row.entry := congrArg (Option.map SessionRow.entry) hrow
  cases hsound.sessions _ _ _ _ hentry ht (hhash.trans hhash'.symm)
  cases hentry.symm.trans ht
  rw [SessionRow.entry, hlive] at hrevoked
  cases hrevoked

theorem authenticateAgentCertificate_revoked (h : db.keyring.certificate serial = some true)
    (env : Env) (a : Id) (digest : String) :
    authenticateAgentCertificate env a serial digest db = .error .unauthenticated := by
  obtain ⟨certificate, hcertificate, hrevoked⟩ := Option.map_eq_some_iff.mp h
  have hnot : certificate.revokedAt ≠ none := Option.isSome_iff_ne_none.mp hrevoked
  rw [authenticateAgentCertificate, hcertificate]
  cases db.agents.get? a with
  | none => rfl
  | some agent =>
      cases htarget : db.targets.get? agent.targetId with
      | none => simp [need, htarget, bind, Except.bind]
      | some target =>
          cases hnamespace : db.namespaces.get? agent.namespaceId with
          | none => simp [need, htarget, hnamespace, bind, Except.bind]
          | some name => simp [need, htarget, hnamespace, bind, Except.bind, ensure, hnot]

/-- What every run of calls that present credentials has led to. -/
structure CredentialState.SingleUse (scheme : TokenScheme) (state : CredentialState) : Prop where
  one_agent : ∀ p ∈ state.presented, ∀ q ∈ state.presented, ∀ token r r' session session',
    p.Enrolled token r session → q.Enrolled token r' session' →
      session.agentId = session'.agentId ∧ r.requestDigest = r'.requestDigest
  created_once : state.presented.Pairwise fun p q => ∀ token r r' session session',
    p.Enrolled token r session → q.Enrolled token r' session' → session.replayed = true
  bound : ∀ p ∈ state.presented, ∀ token r session, p.Enrolled token r session →
    ∃ e row agent, state.db.enrollmentTokens.get? e = some row ∧
      row.tokenHash = scheme.hash token ∧ state.db.agents.get? session.agentId = some agent ∧
      agent.namespaceId = row.namespaceId ∧ agent.targetId = row.targetId ∧
      agent.targetGenerationId = row.targetGenerationId ∧ agent.principalId = row.principalId
  repeats : ∀ p ∈ state.presented, p.Repeats scheme
  one_session : ∀ s s' row row', state.db.sessions.get? s = some row →
    state.db.sessions.get? s' = some row' → row.revokedAt = none → row'.revokedAt = none →
    row.agentId = row'.agentId → s = s'
  renewed_once : state.presented.Pairwise fun p q => ∀ token, p.Renewed token → ¬q.Renewed token
  renewed_refused : ∀ p ∈ state.presented, ∀ token, p.Renewed token → ∀ env,
    authenticateAgent scheme env token state.db = .error .unauthenticated ∧
      ∀ lifetime s answer, renewAgentSession scheme env token lifetime s state.db ≠ .ok answer
  rotated_once : state.presented.Pairwise fun p q => ∀ serial, p.Rotated serial →
    ¬q.Rotated serial
  rotated_refused : ∀ p ∈ state.presented, ∀ serial, p.Rotated serial → ∀ env,
    (∀ a digest, authenticateAgentCertificate env a serial digest state.db =
      .error .unauthenticated) ∧
    ∀ identity certificate answer,
      rotateAgentCertificate env identity serial certificate state.db ≠ .ok answer

theorem CredentialState.Governed.singleUse {state : CredentialState} (h : state.Governed scheme) :
    state.SingleUse scheme := by
  refine ⟨?_, h.sole.imp fun hsole => hsole.enrolled, ?_, h.repeats, ?_,
    h.sole.imp fun hsole => hsole.renewed, ?_, h.sole.imp fun hsole => hsole.rotated, ?_⟩
  · intro p hp q hq token r r' session session' hp' hq'
    obtain ⟨e, t, x, ht, hhash, hused, hx, hdigest⟩ := (h.standing p hp).enrolled _ _ _ hp'
    obtain ⟨e', t', x', ht', hhash', hused', hx', hdigest'⟩ := (h.standing q hq).enrolled _ _ _ hq'
    cases h.sound.tokens e e' t t' ht ht' (hhash.trans hhash'.symm)
    cases ht.symm.trans ht'
    have hagent := Option.some.inj (hused.symm.trans hused')
    rw [hagent] at hx
    cases hx.symm.trans hx'
    exact ⟨hagent, hdigest.symm.trans hdigest'⟩
  · intro p hp token r session hp'
    obtain ⟨e, t, x, ht, hhash, hused, hx, -⟩ := (h.standing p hp).enrolled _ _ _ hp'
    obtain ⟨x', hx', hadmission⟩ := h.sound.admitted e t _ ht hused
    cases hx.symm.trans hx'
    obtain ⟨row, hrow, rfl⟩ := Option.map_eq_some_iff.mp ht
    obtain ⟨agent, hagent, rfl⟩ := Option.map_eq_some_iff.mp hx
    obtain ⟨hns, htarget, hgeneration, hprincipal⟩ := Admission.mk.inj hadmission
    exact ⟨e, row, agent, hrow, hhash, hagent, hns, htarget, hgeneration, hprincipal⟩
  · intro s s' row row' hrow hrow' hlive hlive' hagent
    refine h.sound.single s s' row.entry row'.entry (congrArg (Option.map SessionRow.entry) hrow)
      (congrArg (Option.map SessionRow.entry) hrow') ⟨?_, ?_, hagent⟩
    · exact congrArg Option.isSome hlive
    · exact congrArg Option.isSome hlive'
  · intro p hp token hrenewed env
    have hnone := (h.standing p hp).servingSession_eq_none h.sound hrenewed env
    refine ⟨?_, ?_⟩
    · rw [authenticateAgent, hnone]
      rfl
    · intro lifetime s answer hok
      simp only [renewAgentSession, renewAgentSessionWith, hnone, bind_ok_iff, need_ok_iff] at hok
      obtain ⟨-, -, _, hfound, -⟩ := hok
      cases hfound
  · intro p hp serial hrotated env
    have hrevoked := (h.standing p hp).rotated serial hrotated
    refine ⟨authenticateAgentCertificate_revoked hrevoked env, ?_⟩
    rintro identity certificate ⟨_, db'⟩ hok
    exact (rotateAgentCertificateWith_moves scheme hok fun _ _ hfound => hfound).1 hrevoked

/-- Whatever calls run next to each other, a token admits one agent, an agent has one
session, and a session or a certificate is replaced once. -/
theorem credentials_single_use (platform : Platform) {w : CredentialWorld}
    (h : Transition.Reachable (presenting platform).Step ⟨⟨Db.empty, []⟩, .empty⟩ w) :
    w.committed.SingleUse platform.tokens := by
  have hstart : CredentialState.Governed platform.tokens ⟨Db.empty, []⟩ := by
    refine ⟨Keyring.sound_empty, ?_, ?_, .nil⟩
    · exact fun _ hp => by cases hp
    · exact fun _ hp => by cases hp
  exact (presenting_maintains.holds (Protocol.holds_quiet hstart) h).committed.singleUse

namespace Sample

def enrollment (n : Nat) : CredentialCall :=
  ⟨env 3, .enrollAgent (tokens.derive "jme" 50) registration hour (n + 5) (n + 6)⟩

def renewal (n : Nat) : CredentialCall :=
  ⟨env 4, .renewAgentSession (tokens.derive "jms" 6) hour (n + 20)⟩

def rotation (serial : String) : CredentialCall :=
  ⟨env 5, .rotateAgentCertificate ⟨5, 1, 11⟩ "first" ⟨serial, "key", hour⟩⟩

def contest (n : Nat) (first second : CredentialCall) : List (Action CredentialCall ServiceCall) :=
  [.start n first, .start (n + 1) second, .advance n, .advance (n + 1), .advance n, .commit n,
    .advance (n + 1), .commit (n + 1)]

/-- One token, one session and one certificate, each presented twice at the same time. -/
def contests : List (Action CredentialCall ServiceCall) :=
  (staffing.take 3).map .call ++ contest 1 (enrollment 0) (enrollment 10) ++
    contest 3 (renewal 0) (renewal 1) ++
    [.call ⟨env 4, .recordAgentCertificate 5 ⟨"first", "key", hour⟩⟩] ++
    contest 5 (rotation "second") (rotation "third")

end Sample

/-- The second enrollment is answered with the agent of the first; the second renewal and the
second rotation are refused. -/
theorem credentials_single_use_contests : ∃ w : CredentialWorld,
    Transition.Reachable (presenting Sample.platform).Step ⟨⟨Db.empty, []⟩, .empty⟩ w ∧
      w.committed.presented.map (fun p => p.answer.toOption) =
        [none, some .rotated, none, some (.session ⟨5, 20, "jms/20", hour + 4, false⟩),
          some (.session ⟨5, 6, "jms/6", hour + 3, true⟩),
          some (.session ⟨5, 6, "jms/6", hour + 3, false⟩)] ∧
      w.committed.SingleUse Sample.tokens := by
  have hrun : ((Transition.exec (presenting Sample.platform).next ⟨⟨Db.empty, []⟩, .empty⟩
      Sample.contests).map fun w => w.committed.presented.map fun p => p.answer.toOption) =
      some [none, some .rotated, none, some (.session ⟨5, 20, "jms/20", hour + 4, false⟩),
        some (.session ⟨5, 6, "jms/6", hour + 3, true⟩),
        some (.session ⟨5, 6, "jms/6", hour + 3, false⟩)] := by
    decide
  obtain ⟨w, hw, hanswers⟩ := Option.map_eq_some_iff.mp hrun
  have hreach := Transition.reachable_of_exec hw
  exact ⟨w, hreach, hanswers, credentials_single_use Sample.platform hreach⟩

end JobmanControl
