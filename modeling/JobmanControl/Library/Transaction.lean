import Mathlib.Logic.Basic

/-!
Transactions as computations that either fail or return a value and the next
state. A failed computation has no next state, so rolling back means keeping
the state it was started from. The inversion lemmas take a successful
computation apart one statement at a time.
-/

namespace Relational

variable {ε δ α β : Type}

/-- Refuse with `e` unless the condition holds. -/
def ensure (p : Prop) [Decidable p] (e : ε) : Except ε Unit :=
  if p then .ok () else .error e

/-- Take the single row a query returned, or refuse with `e`. -/
def need (o : Option α) (e : ε) : Except ε α :=
  match o with
  | some a => .ok a
  | none => .error e

/-- A computation over the state `δ`, with the errors `ε`. -/
abbrev Tx (ε δ α : Type) := δ → Except ε (α × δ)

/-- Commit the state a computation ends in, or roll back to the one it began in. -/
def atomically (tx : Tx ε δ α) (d : δ) : δ :=
  match tx d with
  | .ok (_, d') => d'
  | .error _ => d

@[simp] theorem bind_ok_iff (x : Except ε α) (f : α → Except ε β) (b : β) :
    (x >>= f) = .ok b ↔ ∃ a, x = .ok a ∧ f a = .ok b := by
  cases x with
  | error e =>
      change Except.error e = Except.ok b ↔ _
      simp
  | ok a =>
      change f a = .ok b ↔ _
      simp

theorem ok_bind (a : α) (f : α → Except ε β) : ((.ok a : Except ε α) >>= f) = f a := rfl

theorem error_bind (e : ε) (f : α → Except ε β) : ((.error e : Except ε α) >>= f) = .error e := rfl

@[simp] theorem pure_ok_iff (a b : α) : (pure a : Except ε α) = .ok b ↔ a = b := by
  change Except.ok a = Except.ok b ↔ _
  simp

@[simp] theorem ensure_ok_iff (p : Prop) [Decidable p] (e : ε) (u : Unit) :
    ensure p e = .ok u ↔ p := by
  by_cases h : p <;> simp [ensure, h]

theorem bind_error_iff (x : Except ε α) (f : α → Except ε β) (e : ε) :
    (x >>= f) = .error e ↔ x = .error e ∨ ∃ a, x = .ok a ∧ f a = .error e := by
  cases x with
  | error e' =>
      change Except.error e' = Except.error e ↔ _
      simp
  | ok a =>
      change f a = .error e ↔ _
      simp

theorem pure_error_iff (a : α) (e : ε) : (pure a : Except ε α) = .error e ↔ False := by
  change Except.ok a = Except.error e ↔ _
  simp

theorem ensure_error_iff (p : Prop) [Decidable p] (e e' : ε) :
    ensure p e' = .error e ↔ ¬p ∧ e' = e := by
  by_cases h : p <;> simp [ensure, h]

theorem need_error_iff (o : Option α) (e e' : ε) : need o e' = .error e ↔ o = none ∧ e' = e := by
  cases o <;> simp [need]

theorem ensure_of_true {p : Prop} [Decidable p] (h : p) (e : ε) : ensure p e = .ok () := if_pos h

theorem ensure_of_false {p : Prop} [Decidable p] (h : ¬p) (e : ε) : ensure p e = .error e :=
  if_neg h

@[simp] theorem need_ok_iff (o : Option α) (e : ε) (a : α) :
    need o e = .ok a ↔ o = some a := by
  cases o <;> simp [need]

theorem need_of_eq_some {o : Option α} {a : α} (h : o = some a) (e : ε) : need o e = .ok a :=
  (need_ok_iff o e a).mpr h

@[simp] theorem map_snd_ok_iff (x : Except ε (α × δ)) (d : δ) :
    x.map Prod.snd = .ok d ↔ ∃ a, x = .ok (a, d) := by
  cases x with
  | error e => simp [Except.map]
  | ok r =>
      obtain ⟨a, d'⟩ := r
      simp [Except.map]

theorem toOption_eq_some_iff (x : Except ε α) (a : α) : x.toOption = some a ↔ x = .ok a := by
  cases x <;> simp [Except.toOption]

def committed {ε σ α : Type} (tx : Tx ε σ α) (s : σ) : Option σ := (tx s).toOption.map Prod.snd

theorem committed_eq_some_iff {ε σ α : Type} (tx : Tx ε σ α) (s s' : σ) :
    committed tx s = some s' ↔ ∃ a, tx s = .ok (a, s') := by
  unfold committed
  cases h : tx s with
  | error _ => simp [Except.toOption]
  | ok result =>
      obtain ⟨a, s₁⟩ := result
      simp [Except.toOption]

theorem atomically_of_ok {tx : Tx ε δ α} {d d' : δ} {a : α} (h : tx d = .ok (a, d')) :
    atomically tx d = d' := by
  rw [atomically, h]

theorem atomically_cases (tx : Tx ε δ α) (d : δ) :
    (∃ a, tx d = .ok (a, atomically tx d)) ∨ atomically tx d = d := by
  unfold atomically
  cases h : tx d with
  | error e => exact Or.inr rfl
  | ok r => exact Or.inl ⟨r.1, rfl⟩

theorem ok_of_view {β : Type} (tx : Tx ε δ α) (d : δ) (view : α → β) {b : β}
    (h : (tx d).toOption.map (fun answer => view answer.1) = some b) :
    ∃ a, tx d = .ok (a, atomically tx d) ∧ view a = b := by
  unfold atomically
  cases htx : tx d with
  | error e => simp [htx, Except.toOption] at h
  | ok answer =>
      rw [htx] at h
      exact ⟨answer.1, rfl, Option.some.inj h⟩

/-- A property carried by every iteration holds after a loop over a list. -/
theorem foldlM_ok_induction {γ : Type} {P : δ → Prop} {f : δ → γ → Except ε δ} (l : List γ)
    (hstep : ∀ d x d', x ∈ l → P d → f d x = .ok d' → P d') {d d' : δ}
    (hd : P d) (h : l.foldlM f d = .ok d') : P d' := by
  induction l generalizing d with
  | nil =>
      simp only [List.foldlM_nil, pure_ok_iff] at h
      exact h ▸ hd
  | cons x xs ih =>
      simp only [List.foldlM_cons, bind_ok_iff] at h
      obtain ⟨d₁, hx, hxs⟩ := h
      refine ih (fun e y e' hy => hstep e y e' (List.mem_cons_of_mem _ hy)) ?_ hxs
      exact hstep d x d₁ List.mem_cons_self hd hx

/-- What each iteration establishes for its own element, and keeps for the others,
holds for every element after the loop. -/
theorem foldlM_ok_forall {γ : Type} {P : δ → Prop} {Q : γ → δ → Prop}
    {f : δ → γ → Except ε δ} (l : List γ)
    (hstep : ∀ d x d', x ∈ l → P d → f d x = .ok d' →
      P d' ∧ Q x d' ∧ ∀ y, Q y d → Q y d') {d d' : δ}
    (hd : P d) (h : l.foldlM f d = .ok d') :
    P d' ∧ (∀ x ∈ l, Q x d') ∧ ∀ y, Q y d → Q y d' := by
  induction l generalizing d with
  | nil =>
      simp only [List.foldlM_nil, pure_ok_iff] at h
      subst h
      exact ⟨hd, fun x hx => absurd hx List.not_mem_nil, fun _ hy => hy⟩
  | cons x xs ih =>
      simp only [List.foldlM_cons, bind_ok_iff] at h
      obtain ⟨d₁, hx, hxs⟩ := h
      obtain ⟨hd₁, hQ, hkeep⟩ := hstep d x d₁ List.mem_cons_self hd hx
      obtain ⟨hd', hall, hkeep'⟩ :=
        ih (fun e y e' hy => hstep e y e' (List.mem_cons_of_mem _ hy)) hd₁ hxs
      refine ⟨hd', ?_, fun y hy => hkeep' y (hkeep y hy)⟩
      intro y hy
      rcases List.mem_cons.mp hy with rfl | hy
      · exact hkeep' y hQ
      · exact hall y hy

/-- A loop whose every iteration finds its key unmarked and marks it visits no key twice. -/
theorem foldlM_ok_nodup {γ κ : Type} {P : δ → Prop} {Q : κ → δ → Prop} {f : δ → γ → Except ε δ}
    (key : γ → κ) (l : List γ)
    (hstep : ∀ d x d', P d → f d x = .ok d' →
      P d' ∧ ¬Q (key x) d ∧ Q (key x) d' ∧ ∀ k, Q k d → Q k d') {d d' : δ}
    (hd : P d) (h : l.foldlM f d = .ok d') :
    (l.map key).Nodup ∧ ∀ k ∈ l.map key, ¬Q k d := by
  induction l generalizing d with
  | nil => simp
  | cons x xs ih =>
      simp only [List.foldlM_cons, bind_ok_iff] at h
      obtain ⟨d₁, hx, hxs⟩ := h
      obtain ⟨hd₁, hfree, hmark, hkeep⟩ := hstep d x d₁ hd hx
      obtain ⟨hnodup, hrest⟩ := ih hd₁ hxs
      rw [List.map_cons, List.nodup_cons]
      refine ⟨⟨fun hmem => hrest _ hmem hmark, hnodup⟩, ?_⟩
      intro k hk hQ
      rcases List.mem_cons.mp hk with rfl | hk
      · exact hfree hQ
      · exact hrest k hk (hkeep k hQ)

theorem forM_ok_iff {γ : Type} {f : γ → Except ε Unit} (l : List γ) (u : Unit) :
    l.forM f = .ok u ↔ ∀ x ∈ l, f x = .ok () := by
  induction l with
  | nil => exact ⟨fun _ _ hx => absurd hx List.not_mem_nil, fun _ => rfl⟩
  | cons x xs ih =>
      change (f x >>= fun _ => xs.forM f) = .ok u ↔ _
      rw [bind_ok_iff, ih, List.forall_mem_cons]
      constructor
      · rintro ⟨_, hx, hxs⟩
        exact ⟨hx, hxs⟩
      · rintro ⟨hx, hxs⟩
        exact ⟨(), hx, hxs⟩

theorem mapM_ok_length {γ : Type} {f : γ → Except ε α} (l : List γ) {l' : List α}
    (h : l.mapM f = .ok l') : l'.length = l.length := by
  induction l generalizing l' with
  | nil =>
      simp only [List.mapM_nil, pure_ok_iff] at h
      subst h
      rfl
  | cons x xs ih =>
      simp only [List.mapM_cons, bind_ok_iff, pure_ok_iff] at h
      obtain ⟨y, -, ys, hys, rfl⟩ := h
      rw [List.length_cons, List.length_cons, ih hys]

/-- A loop whose every element is still accepted, with a result that looks the same, still
ends, and its results look the same. -/
theorem mapM_ok_view {γ β : Type} {f g : γ → Except ε α} (view : α → β) (l : List γ)
    (hstep : ∀ x ∈ l, ∀ y, f x = .ok y → ∃ y', g x = .ok y' ∧ view y' = view y) {ys : List α}
    (h : l.mapM f = .ok ys) : ∃ ys', l.mapM g = .ok ys' ∧ ys'.map view = ys.map view := by
  induction l generalizing ys with
  | nil => exact ⟨ys, h, rfl⟩
  | cons x xs ih =>
      simp only [List.mapM_cons, bind_ok_iff, pure_ok_iff] at h ⊢
      obtain ⟨y, hy, rest, hrest, rfl⟩ := h
      obtain ⟨y', hy', hview⟩ := hstep x List.mem_cons_self y hy
      obtain ⟨rest', hrest', hviews⟩ := ih (fun z hz => hstep z (List.mem_cons_of_mem _ hz)) hrest
      refine ⟨y' :: rest', ⟨y', hy', rest', hrest', rfl⟩, ?_⟩
      rw [List.map_cons, List.map_cons, hview, hviews]

/-- What a loop computes, it computed from the element at the same place. -/
theorem mapM_ok_zipIdx {γ : Type} {f : γ → Except ε α} (l : List γ) {l' : List α}
    (h : l.mapM f = .ok l') {x : γ} {y : α} {i : Nat} (hmem : ((x, y), i) ∈ (l.zip l').zipIdx) :
    l[i]? = some x ∧ f x = .ok y := by
  have hget := List.mem_zipIdx_iff_getElem?.mp hmem
  obtain ⟨hx, hy⟩ := List.getElem?_zip_eq_some.mp hget
  refine ⟨hx, ?_⟩
  clear hmem hget
  induction l generalizing l' i with
  | nil => cases hx
  | cons z zs ih =>
      simp only [List.mapM_cons, bind_ok_iff, pure_ok_iff] at h
      obtain ⟨w, hw, ws, hws, rfl⟩ := h
      cases i with
      | zero =>
          cases hx
          cases hy
          exact hw
      | succ i => exact ih hws hx hy

theorem mapM_error_mem {γ : Type} {f : γ → Except ε α} (l : List γ) {e : ε}
    (h : l.mapM f = .error e) : ∃ x ∈ l, f x = .error e := by
  induction l with
  | nil => cases h
  | cons x xs ih =>
      simp only [List.mapM_cons, bind_error_iff, pure_error_iff, and_false, exists_false,
        or_false] at h
      obtain hx | ⟨-, -, hxs⟩ := h
      · exact ⟨x, List.mem_cons_self, hx⟩
      · obtain ⟨x', hx', hfx'⟩ := ih hxs
        exact ⟨x', List.mem_cons_of_mem _ hx', hfx'⟩

end Relational
