import JobmanControl.Directory.Objects

/-!
The mapping an operator approves: which directory groups give which role in which namespace,
and which directory accounts are which principals. It is checked before anything is read, and
a mapping that passes names no group and no account twice.
-/

namespace JobmanControl.Directory

open Relational

structure DirectoryBinding where
  groupId : Bytes
  namespaceId : Bytes
  role : Bytes
  deriving DecidableEq, Repr

structure DirectoryAlias where
  issuer : Bytes
  subject : Bytes
  deriving DecidableEq, Repr

structure DirectoryIdentity where
  directoryId : Bytes
  principalId : Bytes
  issuer : Bytes
  subject : Bytes
  displayName : Bytes
  aliases : List DirectoryAlias
  deriving DecidableEq, Repr

structure DirectoryMapping where
  sourceId : Bytes
  revision : Int
  namespaces : List Bytes
  approvedTransitions : List Bytes
  bindings : List DirectoryBinding
  identities : List DirectoryIdentity
  deriving DecidableEq, Repr

def validRole (value : Bytes) : Bool :=
  [ascii "viewer".toList, ascii "submitter".toList, ascii "operator".toList,
    ascii "namespace_admin".toList].contains value

def compact {α : Type} [DecidableEq α] : List α → List α
  | [] => []
  | [a] => [a]
  | a :: b :: l => if a = b then compact (b :: l) else a :: compact (b :: l)

theorem mem_compact {α : Type} [DecidableEq α] (l : List α) (x : α) : x ∈ compact l ↔ x ∈ l := by
  induction l using compact.induct with
  | case1 | case2 => rfl
  | case3 a l ih =>
      rw [compact, if_pos rfl, ih, List.mem_cons (l := a :: l)]
      exact ⟨Or.inr, Or.rec (fun h => h ▸ List.mem_cons_self) id⟩
  | case4 a b l hne ih => rw [compact, if_neg hne, List.mem_cons, ih, ← List.mem_cons]

def aliasLe (a b : DirectoryAlias) : Bool :=
  if a.issuer = b.issuer then stringLe a.subject b.subject else stringLe a.issuer b.issuer

def identityAliases (identity : DirectoryIdentity) : List DirectoryAlias :=
  compact (orderBy aliasLe (⟨identity.issuer, identity.subject⟩ :: identity.aliases))

def checkNamespace (namespaces : List Bytes) (id : Bytes) : Except ReadError (List Bytes) := do
  ensure (isID id = true ∧ id ∉ namespaces)
    (.invalid "directory namespace IDs must be distinct UUIDs")
  pure (id :: namespaces)

def checkBinding (namespaces groups : List Bytes) (binding : DirectoryBinding) :
    Except ReadError (List Bytes) := do
  ensure (isID binding.groupId = true ∧ binding.groupId ∉ groups ∧
      binding.namespaceId ∈ namespaces ∧ validRole binding.role = true)
    (.invalid "directory group must map one-to-one to a configured namespace role")
  pure (binding.groupId :: groups)

/-- The aliases seen so far, each with the account it belongs to. -/
def checkAlias (directoryId : Bytes) (aliases : List (Bytes × Bytes)) (value : DirectoryAlias) :
    Except ReadError (List (Bytes × Bytes)) := do
  ensure (value.issuer ≠ [] ∧ value.issuer.length ≤ 512 ∧ value.subject ≠ [] ∧
      value.subject.length ≤ 512 ∧ 0 ∉ value.issuer ∧ 0 ∉ value.subject)
    (.invalid "directory alias is invalid")
  let key := value.issuer ++ 0 :: value.subject
  let existing := (aliases.lookup key).getD []
  ensure (existing = [] ∨ existing = directoryId)
    (.invalid "directory alias maps to multiple identities")
  pure ((key, directoryId) :: aliases)

/-- The accounts, principals and aliases seen so far. -/
structure SeenIdentities where
  accounts : List Bytes
  principals : List Bytes
  aliases : List (Bytes × Bytes)

def checkIdentity (seen : SeenIdentities) (identity : DirectoryIdentity) :
    Except ReadError SeenIdentities := do
  ensure (isID identity.directoryId = true ∧ isID identity.principalId = true ∧
      identity.directoryId ∉ seen.accounts ∧ identity.principalId ∉ seen.principals ∧
      identity.displayName.length ≤ 512 ∧ identity.aliases.length ≤ 16)
    (.invalid "directory identities must have distinct directory and principal UUIDs")
  let aliases ← (identityAliases identity).foldlM (checkAlias identity.directoryId) seen.aliases
  pure ⟨identity.directoryId :: seen.accounts, identity.principalId :: seen.principals, aliases⟩

def validateMapping (mapping : DirectoryMapping) : Except ReadError Unit := do
  ensure (mapping.sourceId ≠ [] ∧ mapping.sourceId.length ≤ 128 ∧ 1 ≤ mapping.revision ∧
      mapping.namespaces ≠ [] ∧ mapping.namespaces.length ≤ 320 ∧
      mapping.bindings.length ≤ 1280 ∧ mapping.identities.length ≤ 10000)
    (.invalid "directory mapping bounds are invalid")
  let namespaces ← mapping.namespaces.foldlM checkNamespace []
  mapping.approvedTransitions.forM fun id =>
    ensure (id ∈ namespaces)
      (.invalid "directory transition approval is outside configured namespaces")
  let _ ← mapping.bindings.foldlM (checkBinding namespaces) []
  let _ ← mapping.identities.foldlM checkIdentity ⟨[], [], []⟩
  pure ()

/-- An approved mapping names no account twice. -/
theorem validateMapping_nodup {mapping : DirectoryMapping} (h : validateMapping mapping = .ok ()) :
    (mapping.identities.map (·.directoryId)).Nodup := by
  simp only [validateMapping, bind_ok_iff] at h
  obtain ⟨-, -, namespaces, -, -, -, groups, -, seen, hseen, -⟩ := h
  refine (foldlM_ok_nodup (P := fun _ => True) (Q := fun id seen => id ∈ seen.accounts)
    (·.directoryId) mapping.identities ?_ trivial hseen).1
  intro seen identity seen' _ hstep
  simp only [checkIdentity, bind_ok_iff, ensure_ok_iff, pure_ok_iff] at hstep
  obtain ⟨-, ⟨-, -, hnew, -⟩, aliases, -, rfl⟩ := hstep
  exact ⟨trivial, hnew, List.mem_cons_self, fun id hid => List.mem_cons_of_mem _ hid⟩

end JobmanControl.Directory
