import JobmanControl.Catalog.Reports

/-!
The credentials of the agents as a keyring: the enrollment tokens, the agents they admitted,
the sessions of these agents and their certificates. A call adds a token or a certificate,
or it uses one credential up and puts another in its place. A credential that was used up
stays so.
-/

namespace JobmanControl

open Relational Lifecycle Lifecycle.Board Function

variable {scheme : TokenScheme} {lifetime : Nat} {session : AgentSession}

structure Admission where
  namespaceId : Id
  targetId : Id
  targetGenerationId : Id
  principalId : Id
  deriving DecidableEq

structure TokenEntry where
  hash : String
  admission : Admission
  usedBy : Option Id
  deriving DecidableEq

structure AgentEntry where
  admission : Admission
  registrationDigest : String
  deriving DecidableEq

structure SessionEntry where
  agentId : Id
  hash : String
  revoked : Bool
  deriving DecidableEq

@[ext]
structure Keyring where
  token : Id → Option TokenEntry
  agent : Id → Option AgentEntry
  session : Id → Option SessionEntry
  /-- Whether the certificate is revoked. -/
  certificate : String → Option Bool

def EnrollmentTokenRow.admission (row : EnrollmentTokenRow) : Admission :=
  ⟨row.namespaceId, row.targetId, row.targetGenerationId, row.principalId⟩

def EnrollmentTokenRow.entry (row : EnrollmentTokenRow) : TokenEntry :=
  ⟨row.tokenHash, row.admission, row.used.map TokenUse.usedByAgentId⟩

def AgentRow.admission (row : AgentRow) : Admission :=
  ⟨row.namespaceId, row.targetId, row.targetGenerationId, row.principalId⟩

def AgentRow.entry (row : AgentRow) : AgentEntry := ⟨row.admission, row.registrationDigest⟩

def SessionRow.entry (row : SessionRow) : SessionEntry :=
  ⟨row.agentId, row.tokenHash, row.revokedAt.isSome⟩

def CertificateRow.revoked (row : CertificateRow) : Bool := row.revokedAt.isSome

def Db.keyring (db : Db) : Keyring where
  token e := (db.enrollmentTokens.get? e).map EnrollmentTokenRow.entry
  agent a := (db.agents.get? a).map AgentRow.entry
  session s := (db.sessions.get? s).map SessionRow.entry
  certificate serial := (db.certificates.get? serial).map CertificateRow.revoked

def openedSession (scheme : TokenScheme) (agentId sessionId : Id) : SessionEntry :=
  ⟨agentId, scheme.hash (scheme.derive "jms" sessionId), false⟩

/-- Related entries are one entry. -/
def Separates {α β : Type} (R : β → β → Prop) (f : α → Option β) : Prop :=
  ∀ k k' y y', f k = some y → f k' = some y' → R y y' → k = k'

theorem Separates.update {α β : Type} [DecidableEq α] {R : β → β → Prop} {f : α → Option β}
    (h : Separates R f) (hsymm : ∀ y y', R y y' → R y' y) {i : α} {x : β}
    (hx : ∀ k y, f k = some y → R y x → k = i) :
    Separates R (update f i (some x)) := by
  intro k k' y y' hy hy' hR
  obtain ⟨rfl, rfl⟩ | ⟨-, hold⟩ := update_cases hy <;>
    obtain ⟨rfl, rfl⟩ | ⟨-, hold'⟩ := update_cases hy'
  · rfl
  · exact (hx k' y' hold' (hsymm _ _ hR)).symm
  · exact hx k y hold hR
  · exact h k k' y y' hold hold' hR

def TokenEntry.SameHash (t t' : TokenEntry) : Prop := t.hash = t'.hash

def SessionEntry.SameHash (t t' : SessionEntry) : Prop := t.hash = t'.hash

def SessionEntry.Rivals (t t' : SessionEntry) : Prop :=
  t.revoked = false ∧ t'.revoked = false ∧ t.agentId = t'.agentId

theorem SessionEntry.Rivals.symm {t t' : SessionEntry} (h : t.Rivals t') : t'.Rivals t :=
  ⟨h.2.1, h.1, h.2.2.symm⟩

namespace Keyring

/-- What happens to the keyring. -/
inductive Step (scheme : TokenScheme) (b : Keyring) : Keyring → Prop
  | issue (e : Id) (t : TokenEntry) : b.token e = none → t.usedBy = none →
      (∀ e' t', b.token e' = some t' → t'.hash ≠ t.hash) →
      Step scheme b { b with token := update b.token e (some t) }
  | enroll (e a s : Id) (t : TokenEntry) (digest : String) : b.token e = some t →
      t.usedBy = none → b.agent a = none → b.session s = none →
      (∀ s' t', b.session s' = some t' → t'.hash ≠ (openedSession scheme a s).hash) →
      Step scheme b { b with
        token := update b.token e (some { t with usedBy := some a })
        agent := update b.agent a (some ⟨t.admission, digest⟩)
        session := update b.session s (some (openedSession scheme a s)) }
  | renew (s s' : Id) (t : SessionEntry) : b.session s = some t → t.revoked = false →
      b.session s' = none →
      (∀ r u, b.session r = some u → u.hash ≠ (openedSession scheme t.agentId s').hash) →
      Step scheme b { b with
        session := update (update b.session s (some { t with revoked := true }))
          s' (some (openedSession scheme t.agentId s')) }
  | certify (serial : String) : b.certificate serial = none →
      Step scheme b { b with
        certificate := update b.certificate serial (some false) }
  | rotate (serial serial' : String) : b.certificate serial' = none →
      b.certificate serial ≠ some true →
      Step scheme b { b with
        certificate := update (update b.certificate serial' (some false))
          serial (some true) }

theorem Step.of_eq {b b' b'' : Keyring} (h : Step scheme b b') (heq : b'' = b') :
    Step scheme b b'' := heq ▸ h

/-- The credentials fit together. -/
structure Sound (scheme : TokenScheme) (b : Keyring) : Prop where
  tokens : Separates TokenEntry.SameHash b.token
  admitted : ∀ e t a, b.token e = some t → t.usedBy = some a →
    ∃ x, b.agent a = some x ∧ x.admission = t.admission
  sessions : Separates SessionEntry.SameHash b.session
  derived : ∀ s t, b.session s = some t → t.hash = scheme.hash (scheme.derive "jms" s)
  owned : ∀ s t, b.session s = some t → ∃ x, b.agent t.agentId = some x
  /-- An agent has at most one session in force. -/
  single : Separates SessionEntry.Rivals b.session

/-- What is used up stays used up. -/
structure Extends (b b' : Keyring) : Prop where
  token : ∀ e t, b.token e = some t → ∃ t', b'.token e = some t' ∧ t'.hash = t.hash ∧
    (t.usedBy ≠ none → t'.usedBy = t.usedBy)
  agent : ∀ a x, b.agent a = some x → b'.agent a = some x
  session : ∀ s t, b.session s = some t → ∃ t', b'.session s = some t' ∧ t'.hash = t.hash ∧
    (t.revoked = true → t'.revoked = true)
  certificate : ∀ serial, b.certificate serial = some true → b'.certificate serial = some true

theorem Extends.refl (b : Keyring) : b.Extends b :=
  ⟨fun _ t ht => ⟨t, ht, rfl, fun _ => rfl⟩, fun _ _ hx => hx,
    fun _ t ht => ⟨t, ht, rfl, fun h => h⟩, fun _ h => h⟩

variable {b b' : Keyring}

theorem Step.extend (h : Step scheme b b') : b.Extends b' := by
  have hrefl := Extends.refl b
  cases h with
  | issue e t hfree =>
      refine { hrefl with token := ?_ }
      intro e' t' ht'
      exact ⟨t', update_keeps hfree ht', rfl, fun _ => rfl⟩
  | enroll e a s t digest ht hunused hagent hsession hunseen =>
      refine ⟨?_, fun _ _ => update_keeps hagent, ?_, hrefl.certificate⟩
      · intro e' t' ht'
        by_cases he : e' = e
        · subst he
          cases ht.symm.trans ht'
          exact ⟨_, update_self .., rfl, fun h => absurd hunused h⟩
        · exact ⟨t', (update_of_ne he ..).trans ht', rfl, fun _ => rfl⟩
      · intro s' t' ht'
        exact ⟨t', update_keeps hsession ht', rfl, fun h => h⟩
  | renew s s' t ht hlive hfree hunseen =>
      refine { hrefl with session := ?_ }
      intro r u hu
      have hr' : r ≠ s' := by
        rintro rfl
        cases hfree.symm.trans hu
      by_cases hr : r = s
      · subst hr
        cases ht.symm.trans hu
        exact ⟨_, (update_of_ne hr' ..).trans (update_self ..), rfl, fun _ => rfl⟩
      · refine ⟨u, ?_, rfl, fun h => h⟩
        exact (update_of_ne hr' ..).trans ((update_of_ne hr ..).trans hu)
  | certify serial hfree => exact { hrefl with certificate := fun _ h => update_keeps hfree h }
  | rotate serial serial' hfree hlive =>
      refine { hrefl with certificate := ?_ }
      intro r hr
      by_cases hserial : r = serial
      · subst hserial
        exact absurd hr hlive
      · exact (update_of_ne hserial ..).trans (update_keeps hfree hr)

theorem Step.sound (h : Step scheme b b') (hsound : b.Sound scheme) : b'.Sound scheme := by
  cases h with
  | issue e t hfree hunused hhash =>
      refine { hsound with tokens := ?_, admitted := ?_ }
      · refine hsound.tokens.update (fun _ _ h => h.symm) ?_
        exact fun e' t' ht' heq => absurd heq (hhash e' t' ht')
      · intro e' t' a ht' hused
        obtain ⟨rfl, rfl⟩ | ⟨-, ht'⟩ := update_cases ht'
        · cases hunused.symm.trans hused
        · exact hsound.admitted e' t' a ht' hused
  | enroll e a s t digest ht hunused hagent hsession hunseen =>
      refine ⟨?_, ?_, ?_, ?_, ?_, ?_⟩
      · refine hsound.tokens.update (fun _ _ h => h.symm) ?_
        exact fun e' t' ht' heq => hsound.tokens e' e t' t ht' ht heq
      · intro e' t' a' ht' hused
        obtain ⟨rfl, rfl⟩ | ⟨-, ht'⟩ := update_cases ht'
        · cases hused
          exact ⟨_, update_self .., rfl⟩
        · obtain ⟨x, hx, hadmission⟩ := hsound.admitted e' t' a' ht' hused
          exact ⟨x, update_keeps hagent hx, hadmission⟩
      · refine hsound.sessions.update (fun _ _ h => h.symm) ?_
        exact fun s' t' ht' heq => absurd heq (hunseen s' t' ht')
      · intro s' t' ht'
        obtain ⟨rfl, rfl⟩ | ⟨-, ht'⟩ := update_cases ht'
        · rfl
        · exact hsound.derived s' t' ht'
      · intro s' t' ht'
        obtain ⟨rfl, rfl⟩ | ⟨-, ht'⟩ := update_cases ht'
        · exact ⟨_, update_self ..⟩
        · obtain ⟨x, hx⟩ := hsound.owned s' t' ht'
          exact ⟨x, update_keeps hagent hx⟩
      · -- The agent is new, so that no session is its own yet.
        refine hsound.single.update (fun _ _ h => h.symm) ?_
        rintro s' t' ht' ⟨-, -, heq⟩
        obtain ⟨x, hx⟩ := hsound.owned s' t' ht'
        rw [heq] at hx
        cases hagent.symm.trans hx
  | renew s s' t ht hlive hfree hunseen =>
      have hcases : ∀ r u, update b.session s (some { t with revoked := true }) r = some u →
          ∃ u', b.session r = some u' ∧ u.agentId = u'.agentId ∧ u.hash = u'.hash ∧
            (u.revoked = false → u = u' ∧ r ≠ s) := by
        intro r u hu
        obtain ⟨rfl, rfl⟩ | ⟨hr, hu⟩ := update_cases hu
        · exact ⟨t, ht, rfl, rfl, fun h => by cases h⟩
        · exact ⟨u, hu, rfl, rfl, fun _ => ⟨rfl, hr⟩⟩
      refine { hsound with sessions := ?_, derived := ?_, owned := ?_, single := ?_ }
      · refine (hsound.sessions.update (fun _ _ h => h.symm) ?_).update (fun _ _ h => h.symm) ?_
        · exact fun r u hu heq => hsound.sessions r s u t hu ht heq
        · intro r u hu heq
          obtain ⟨u', hu', -, hhash, -⟩ := hcases r u hu
          exact absurd (hhash.symm.trans heq) (hunseen r u' hu')
      · intro r u hu
        obtain ⟨rfl, rfl⟩ | ⟨-, hu⟩ := update_cases hu
        · rfl
        · obtain ⟨u', hu', -, hhash, -⟩ := hcases r u hu
          exact hhash.trans (hsound.derived r u' hu')
      · intro r u hu
        obtain ⟨rfl, rfl⟩ | ⟨-, hu⟩ := update_cases hu
        · exact hsound.owned s t ht
        · obtain ⟨u', hu', hagent, -, -⟩ := hcases r u hu
          rw [hagent]
          exact hsound.owned r u' hu'
      · -- The session in force is revoked before the next is opened.
        refine (hsound.single.update (fun _ _ h => h.symm) ?_).update (fun _ _ h => h.symm) ?_
        · rintro r u - ⟨-, hrevoked, -⟩
          cases hrevoked
        · rintro r u hu ⟨hrevoked, -, heq⟩
          obtain ⟨u', hu', -, -, hold⟩ := hcases r u hu
          obtain ⟨rfl, hr⟩ := hold hrevoked
          exact absurd (hsound.single r s u t hu' ht ⟨hrevoked, hlive, heq⟩) hr
  | certify | rotate => exact { hsound with }

def Moves (scheme : TokenScheme) (b b' : Keyring) : Prop := b' = b ∨ Step scheme b b'

theorem Moves.extend (h : Moves scheme b b') : b.Extends b' := by
  obtain rfl | h := h
  · exact .refl b'
  · exact h.extend

theorem Moves.sound (h : Moves scheme b b') (hsound : b.Sound scheme) : b'.Sound scheme := by
  obtain rfl | h := h
  · exact hsound
  · exact h.sound hsound

theorem sound_empty : Db.empty.keyring.Sound scheme := by
  refine ⟨?_, ?_, ?_, ?_, ?_, ?_⟩
  · intro e e' t t' ht
    cases ht
  · intro e t a ht
    cases ht
  · intro s s' t t' ht
    cases ht
  · intro s t ht
    cases ht
  · intro s t ht
    cases ht
  · intro s s' t t' ht
    cases ht

end Keyring

/-! What the calls do to the keyring. -/

section Calls

variable {env : Env} {db db' : Db}

theorem view_modify {κ ρ β : Type} [DecidableEq κ] (view : ρ → β) {t : Table κ ρ} {k : κ} {row : ρ}
    (f : ρ → ρ) (h : t.get? k = some row) : (fun k' => ((t.modify k f).get? k').map view) =
      update (fun k' => (t.get? k').map view) k (some (view (f row))) := by
  funext k'
  rw [Table.get?_modify]
  by_cases hk : k' = k
  · subst hk
    rw [if_pos rfl, update_self, h]
    rfl
  · rw [if_neg hk, update_of_ne hk]

theorem view_modify_same {κ ρ β : Type} [DecidableEq κ] (view : ρ → β) (t : Table κ ρ) (k : κ)
    {f : ρ → ρ} (hf : ∀ row, view (f row) = view row) :
    (fun k' => ((t.modify k f).get? k').map view) = fun k' => (t.get? k').map view := by
  funext k'
  rw [Table.get?_modify]
  split
  · rw [Option.map_map]
    exact congrArg (fun g => (t.get? k').map g) (funext hf)
  · rfl

theorem keyring_of_tables (h : db'.agentTables = db.agentTables) : db'.keyring = db.keyring := by
  have htokens := congrArg AgentTables.enrollmentTokens h
  have hagents := congrArg AgentTables.agents h
  have hsessions := congrArg AgentTables.sessions h
  have hcertificates := congrArg AgentTables.certificates h
  simp only [Db.agentTables] at htokens hagents hsessions hcertificates
  simp only [Db.keyring, htokens, hagents, hsessions, hcertificates]

theorem insertSession_opens {sessionId namespaceId agentId : Id}
    (h : insertSession env db sessionId namespaceId agentId
      (scheme.hash (scheme.derive "jms" sessionId)) lifetime = .ok db') :
    ∃ sessions, db' = { db with sessions := sessions } ∧ db.keyring.session sessionId = none ∧
      (∀ s t, db.keyring.session s = some t →
        t.hash ≠ (openedSession scheme agentId sessionId).hash) ∧
      db'.keyring.session = update db.keyring.session sessionId
        (some (openedSession scheme agentId sessionId)) := by
  simp only [insertSession, bind_ok_iff, need_ok_iff, ensure_ok_iff, pure_ok_iff,
    Bool.not_eq_true', Table.any_eq_false_iff, decide_eq_false_iff_not] at h
  obtain ⟨-, hunseen, sessions, hsessions, rfl⟩ := h
  obtain ⟨hfree, hview⟩ := roster_insert? SessionRow.entry hsessions
  refine ⟨sessions, rfl, hfree, ?_, hview⟩
  intro s t ht
  obtain ⟨row, hrow, rfl⟩ := Option.map_eq_some_iff.mp ht
  exact hunseen s row hrow

/-- What an enrollment does once its lock statement has returned a token: it answers with a
session of the agent that used it, or it uses it. -/
inductive EnrollmentOutcome (scheme : TokenScheme) (env : Env) (registration : AgentRegistration)
    (binding : EnrollmentBinding) (db db' : Db) (session : AgentSession) : Prop
  | replayed (use : TokenUse) : binding.token.used = some use → db' = db →
      replayEnrollment scheme env db use.usedByAgentId registration.requestDigest = .ok session →
      EnrollmentOutcome scheme env registration binding db db' session
  | used : binding.token.used = none → session.replayed = false →
      Keyring.Step scheme db.keyring db'.keyring →
      db'.keyring.token binding.enrollmentId =
        some { binding.token.entry with usedBy := some session.agentId } →
      db'.keyring.agent session.agentId =
        some ⟨binding.token.admission, registration.requestDigest⟩ →
      EnrollmentOutcome scheme env registration binding db db' session

theorem enrollAgentWith_outcome {lookup : Db → String → Option EnrollmentBinding} {token : String}
    {registration : AgentRegistration} {a s : Id}
    (h : enrollAgentWith lookup scheme env token registration lifetime a s db =
      .ok (session, db')) (hlookup : ∀ binding, lookup db (scheme.hash token) = some binding →
      db.enrollmentTokens.get? binding.enrollmentId = some binding.token) :
    ∃ binding, lookup db (scheme.hash token) = some binding ∧
      EnrollmentOutcome scheme env registration binding db db' session := by
  simp only [enrollAgentWith, bind_ok_iff, need_ok_iff] at h
  obtain ⟨_, -, -, -, binding, hbinding, h⟩ := h
  refine ⟨binding, hbinding, ?_⟩
  split at h
  · rename_i use huse
    simp only [bind_ok_iff, pure_ok_iff, Prod.mk.injEq] at h
    obtain ⟨_, hreplay, rfl, rfl⟩ := h
    exact .replayed use huse rfl hreplay
  · rename_i hunused
    simp only [bind_ok_iff, need_ok_iff, ensure_ok_iff, pure_ok_iff, Prod.mk.injEq] at h
    obtain ⟨-, -, -, -, agents, hagents, db₁, hsession, rfl, rfl⟩ := h
    obtain ⟨sessions, rfl, hfree, hunseen, hsessions⟩ := insertSession_opens hsession
    obtain ⟨hagent, hagents⟩ := roster_insert? AgentRow.entry hagents
    have htoken : db.keyring.token binding.enrollmentId = some binding.token.entry :=
      congrArg (Option.map EnrollmentTokenRow.entry) (hlookup binding hbinding)
    have htokens := view_modify EnrollmentTokenRow.entry
      (fun row => { row with used := some ⟨env.now, a⟩ }) (hlookup binding hbinding)
    refine .used hunused rfl ?_ ?_ ?_
    · have hentry : binding.token.entry.usedBy = none :=
        congrArg (Option.map TokenUse.usedByAgentId) hunused
      exact (Keyring.Step.enroll _ a s _ registration.requestDigest htoken hentry hagent hfree
        hunseen).of_eq (Keyring.ext htokens hagents hsessions rfl)
    · exact (congrFun htokens _).trans (update_self ..)
    · exact (congrFun hagents _).trans (update_self ..)

/-- A renewal revokes the session it was presented and opens another. -/
theorem renewAgentSessionWith_moves
    {lookup : Env → Db → String → Option ((Id × SessionRow) × AgentRow)} {token : String} {s' : Id}
    (h : renewAgentSessionWith lookup scheme env token lifetime s' db = .ok (session, db'))
    (hlookup : ∀ s row agent, lookup env db (scheme.hash token) = some ((s, row), agent) →
      db.sessions.get? s = some row ∧ row.revokedAt = none) :
    ∃ s row agent, lookup env db (scheme.hash token) = some ((s, row), agent) ∧
      Keyring.Step scheme db.keyring db'.keyring ∧
      db'.keyring.session s = some { row.entry with revoked := true } := by
  simp only [renewAgentSessionWith, bind_ok_iff, need_ok_iff, pure_ok_iff, Prod.exists,
    Prod.mk.injEq] at h
  obtain ⟨-, -, s, row, agent, hfound, db₁, hsession, -, rfl⟩ := h
  obtain ⟨hrow, hlive⟩ := hlookup s row agent hfound
  obtain ⟨sessions, rfl, hfree, hunseen, hsessions⟩ := insertSession_opens hsession
  have hentry : db.keyring.session s = some row.entry := congrArg (Option.map SessionRow.entry) hrow
  have hne : s ≠ s' := by
    rintro rfl
    cases hfree.symm.trans hentry
  have hkept : sessions.get? s = some row := by
    simp only [insertSession, bind_ok_iff, need_ok_iff, pure_ok_iff] at hsession
    obtain ⟨-, -, inserted, hinserted, heq⟩ := hsession
    obtain rfl : inserted = sessions := congrArg Db.sessions heq
    rw [Table.get?_insert hinserted, if_neg hne]
    exact hrow
  have hview := view_modify SessionRow.entry
    (fun row => { row with revokedAt := some env.now, replacedBySessionId := some s' }) hkept
  refine ⟨s, row, agent, hfound, ?_, (congrFun hview s).trans (update_self ..)⟩
  have hlive' : row.entry.revoked = false := congrArg Option.isSome hlive
  refine (Keyring.Step.renew s s' row.entry hentry hlive' hfree hunseen).of_eq
    (Keyring.ext rfl rfl ?_ rfl)
  exact hview.trans ((congrArg (fun f => update f s _) hsessions).trans
    (update_comm hne.symm _ _ _))

variable (scheme)

/-- A rotation revokes the certificate it was presented and adds another. -/
theorem rotateAgentCertificateWith_moves
    {lookup : Table String CertificateRow → String → Option CertificateRow}
    {identity : AgentIdentity} {serial : String} {certificate : AgentCertificate} {u : Unit}
    (h : rotateAgentCertificateWith lookup env identity serial certificate db = .ok (u, db'))
    (hlookup : ∀ certificates row, lookup certificates serial = some row →
      certificates.get? serial = some row) :
    db.keyring.certificate serial ≠ some true ∧ Keyring.Step scheme db.keyring db'.keyring ∧
      db'.keyring.certificate serial = some true := by
  simp only [rotateAgentCertificateWith, bind_ok_iff, need_ok_iff, ensure_ok_iff, pure_ok_iff,
    Prod.mk.injEq] at h
  obtain ⟨certificates, hinsert, row, hfound, -, ⟨-, hlive, -⟩, -, rfl⟩ := h
  have hrow := hlookup certificates row hfound
  obtain ⟨hfree, hinserted⟩ := roster_insert? CertificateRow.revoked hinsert
  have hview := view_modify CertificateRow.revoked
    (fun row => { row with revokedAt := some env.now, replacedBySerial := some certificate.serial })
    hrow
  have hvalid : db.keyring.certificate serial ≠ some true := by
    intro hrevoked
    -- A revoked certificate is not the one that was added, so the update has not found it.
    have hkept := (congrFun hinserted serial).trans
      (update_keeps (f := db.keyring.certificate) hfree hrevoked)
    rw [hrow] at hkept
    have hvalid : row.revoked = false := congrArg Option.isSome hlive
    rw [Option.map_some, hvalid] at hkept
    cases hkept
  refine ⟨hvalid, ?_, (congrFun hview serial).trans (update_self ..)⟩
  refine (Keyring.Step.rotate serial certificate.serial hfree hvalid).of_eq
    (Keyring.ext rfl rfl rfl ?_)
  exact hview.trans (congrArg (fun f => update f serial _) hinserted)

end Calls

section Lookups

variable {env : Env} {db db' : Db}

theorem lookupEnrollment_token {hash : String} {binding : EnrollmentBinding}
    (h : lookupEnrollment db hash = some binding) :
    db.enrollmentTokens.get? binding.enrollmentId = some binding.token ∧
      binding.token.tokenHash = hash := by
  simp only [lookupEnrollment, Option.bind_eq_bind, Option.bind_eq_some_iff, Option.pure_def,
    Option.some.injEq] at h
  obtain ⟨entry, hentry, target, -, generation, -, -, -, rfl⟩ := h
  have hmem := List.mem_of_mem_head? (Option.mem_def.mpr hentry)
  rw [Table.mem_select, decide_eq_true_iff] at hmem
  exact hmem

theorem servingSession_row {hash : String} {s : Id} {row : SessionRow} {agent : AgentRow}
    (h : servingSession env db hash = some ((s, row), agent)) :
    db.sessions.get? s = some row ∧ row.tokenHash = hash ∧ row.revokedAt = none := by
  simp only [servingSession, Option.bind_eq_bind, Option.bind_eq_some_iff, Option.pure_def,
    Option.some.injEq, Prod.mk.injEq] at h
  obtain ⟨entry, hentry, _, -, _, -, -, -, rfl, -⟩ := h
  have hmem := List.mem_of_mem_head? (Option.mem_def.mpr hentry)
  simp only [Table.mem_select, Bool.and_eq_true, decide_eq_true_eq] at hmem
  exact ⟨hmem.1, hmem.2.1.1, hmem.2.1.2⟩

theorem ServiceOperation.keyring_credentials {operation : ServiceOperation} (platform : Platform)
    (env : Env) (db : Db) (h : operation.ofCredentials = true) : Keyring.Moves platform.tokens
      db.keyring ((ServiceCall.mk env operation).apply platform db).keyring := by
  have htx : ∀ {α : Type} (tx : Tx StoreError Db α),
      (∀ a db', tx db = .ok (a, db') → Keyring.Moves platform.tokens db.keyring db'.keyring) →
      Keyring.Moves platform.tokens db.keyring (atomically tx db).keyring := by
    intro α tx hok
    obtain ⟨a, h⟩ | hsame := atomically_cases tx db
    · exact hok a _ h
    · exact Or.inl (congrArg Db.keyring hsame)
  cases operation with
  | createEnrollmentToken =>
      refine htx _ fun _ _ h => ?_
      obtain ⟨_, _, _, rfl, rfl | ⟨row, htokens, hunused, hunseen⟩⟩ :=
        createEnrollmentToken_writes h
      · exact Or.inl rfl
      · obtain ⟨hfree, hview⟩ := roster_insert? EnrollmentTokenRow.entry htokens
        refine Or.inr ((Keyring.Step.issue _ _ hfree (congrArg (Option.map _) hunused) ?_).of_eq
          (Keyring.ext hview rfl rfl rfl))
        intro e t ht
        obtain ⟨old, hold, rfl⟩ := Option.map_eq_some_iff.mp ht
        exact hunseen e old hold
  | renewAgentSession =>
      refine htx _ fun _ _ h => ?_
      obtain ⟨_, _, _, -, hstep, -⟩ := renewAgentSessionWith_moves h fun _ _ _ hfound =>
        ⟨(servingSession_row hfound).1, (servingSession_row hfound).2.2⟩
      exact Or.inr hstep
  | authenticateAgent =>
      refine htx _ fun _ _ h => ?_
      simp only [JobmanControl.authenticateAgent, bind_ok_iff, pure_ok_iff, Prod.exists,
        Prod.mk.injEq] at h
      obtain ⟨s, row, agent, -, _, -, -, rfl⟩ := h
      exact Or.inl (Keyring.ext rfl rfl
        (view_modify_same SessionRow.entry db.sessions s fun _ => rfl) rfl)
  | recordAgentCertificate =>
      refine htx _ fun _ _ h => ?_
      simp only [JobmanControl.recordAgentCertificate, bind_ok_iff] at h
      obtain ⟨_, -, -, -, h⟩ := h
      split at h
      · rename_i hinsert
        cases h
        obtain ⟨hfree, hview⟩ := roster_insert? CertificateRow.revoked hinsert
        exact Or.inr ((Keyring.Step.certify _ hfree).of_eq (Keyring.ext rfl rfl rfl hview))
      · simp only [bind_ok_iff, pure_ok_iff, Prod.mk.injEq] at h
        obtain ⟨_, -, -, -, -, rfl⟩ := h
        exact Or.inl rfl
  | rotateAgentCertificate =>
      refine htx _ fun _ _ h => ?_
      exact Or.inr (rotateAgentCertificateWith_moves _ h fun _ _ hfound => hfound).2.1
  | authenticateAgentCertificate agentId =>
      refine htx _ fun _ _ h => ?_
      obtain rfl := authenticateAgentCertificate_writes h
      exact Or.inl (Keyring.ext rfl
        (view_modify_same AgentRow.entry db.agents agentId fun _ => rfl) rfl rfl)
  | recordAgentCapabilities identity =>
      refine htx _ fun _ _ h => ?_
      obtain rfl | ⟨agent, row, snapshots, -, -, -, -, rfl⟩ := recordAgentCapabilities_writes h
      · exact Or.inl rfl
      · exact Or.inl (Keyring.ext rfl
          (view_modify_same AgentRow.entry db.agents identity.agentId fun _ => rfl) rfl rfl)
  | _ => cases h

theorem ServiceCall.keyring (call : ServiceCall) (platform : Platform) (db : Db) :
    Keyring.Moves platform.tokens db.keyring (call.apply platform db).keyring := by
  obtain ⟨operation, -, hwork⟩ | heffect := call.apply_effect platform db
  · rw [hwork]
    exact Or.inl (keyring_of_tables (operation.apply_agentTables platform.codec call.env db))
  generalize call.apply platform db = db' at heffect
  cases heffect with
  | cataloged _ hrest =>
      obtain ⟨_, _, _, _, _, _, _, _, _, rfl⟩ := hrest
      exact Or.inl rfl
  | enrolled h =>
      obtain ⟨binding, -, houtcome⟩ := enrollAgentWith_outcome h
        fun _ hfound => (lookupEnrollment_token hfound).1
      cases houtcome with
      | replayed use huse hsame hreplay => exact Or.inl (congrArg Db.keyring hsame)
      | used hunused hfresh hstep => exact Or.inr hstep
  | credentialed operation hop => exact operation.keyring_credentials platform call.env db hop
  | refused | administered | delivered | logged | acted | maintained => exact Or.inl rfl

end Lookups

end JobmanControl
