/-!
Programs that ask. A dialogue ends with a value, fails, or asks a question and goes on with
the answer to it. Nothing is assumed of the answers, and a dialogue is well founded: whoever
answers, every run of it ends.
-/

inductive Dialogue (ε Q A α : Type)
  | done (a : α)
  | fail (e : ε)
  | ask (q : Q) (next : A → Dialogue ε Q A α)

namespace Dialogue

variable {ε Q A α β : Type}

def bind : Dialogue ε Q A α → (α → Dialogue ε Q A β) → Dialogue ε Q A β
  | done a, f => f a
  | fail e, _ => fail e
  | ask q next, f => ask q fun answer => (next answer).bind f

instance : Monad (Dialogue ε Q A) where
  pure := done
  bind := bind

def question (q : Q) : Dialogue ε Q A A := ask q done

def ofExcept : Except ε α → Dialogue ε Q A α
  | .ok a => done a
  | .error e => fail e

def mapError (f : ε → ε) : Dialogue ε Q A α → Dialogue ε Q A α
  | done a => done a
  | fail e => fail (f e)
  | ask q next => ask q fun answer => (next answer).mapError f

/-- The result and the number of questions, after the first `n` of them: the `n`-th question
gets the `n`-th answer. -/
def run (answers : Nat → Q → A) : Dialogue ε Q A α → Nat → Except ε α × Nat
  | done a, n => (.ok a, n)
  | fail e, n => (.error e, n)
  | ask q next, n => (next (answers n q)).run answers (n + 1)

/-- The run from the `n`-th question on returns a value before the `m`-th. -/
def Returns (answers : Nat → Q → A) (d : Dialogue ε Q A α) (n : Nat) (a : α) (m : Nat) : Prop :=
  d.run answers n = (.ok a, m)

def Fails (answers : Nat → Q → A) (d : Dialogue ε Q A α) (n : Nat) (e : ε) : Prop :=
  (d.run answers n).1 = .error e

/-- At most `b` questions are asked. -/
def Within (b : Nat) (d : Dialogue ε Q A α) : Prop :=
  ∀ answers n, (d.run answers n).2 ≤ n + b

section Runs

variable {answers : Nat → Q → A} {n m : Nat} {a : α} {e : ε}

@[simp] theorem returns_done {a' : α} :
    (done a : Dialogue ε Q A α).Returns answers n a' m ↔ a = a' ∧ n = m := by
  simp [Returns, run]

@[simp] theorem returns_pure {a' : α} :
    (pure a : Dialogue ε Q A α).Returns answers n a' m ↔ a = a' ∧ n = m := returns_done

@[simp] theorem returns_fail : ¬(fail e : Dialogue ε Q A α).Returns answers n a m := by
  simp [Returns, run]

@[simp] theorem returns_question {q : Q} {answer : A} :
    (question q : Dialogue ε Q A A).Returns answers n answer m ↔
      answers n q = answer ∧ n + 1 = m := by
  simp [Returns, question, run]

@[simp] theorem returns_ofExcept {x : Except ε α} :
    (ofExcept x : Dialogue ε Q A α).Returns answers n a m ↔ x = .ok a ∧ n = m := by
  cases x with
  | ok a' => simp [ofExcept]
  | error e => simp [ofExcept]

@[simp] theorem returns_mapError {f : ε → ε} {d : Dialogue ε Q A α} :
    (d.mapError f).Returns answers n a m ↔ d.Returns answers n a m := by
  induction d generalizing n with
  | done a' => rfl
  | fail e => simp [mapError]
  | ask q next ih => exact ih (answers n q)

@[simp] theorem returns_bind {d : Dialogue ε Q A α} {f : α → Dialogue ε Q A β} {b : β} :
    (d >>= f).Returns answers n b m ↔
      ∃ a k, d.Returns answers n a k ∧ (f a).Returns answers k b m := by
  induction d generalizing n with
  | done a =>
      constructor
      · exact fun h => ⟨a, n, returns_done.mpr ⟨rfl, rfl⟩, h⟩
      · rintro ⟨a', k, hdone, h⟩
        obtain ⟨rfl, rfl⟩ := returns_done.mp hdone
        exact h
  | fail e => simp [Bind.bind, bind]
  | ask q next ih => exact ih (answers n q)

@[simp] theorem fails_done {e : ε} : ¬(done a : Dialogue ε Q A α).Fails answers n e := by
  simp [Fails, run]

@[simp] theorem fails_fail {e' : ε} : (fail e : Dialogue ε Q A α).Fails answers n e' ↔ e = e' := by
  simp [Fails, run]

@[simp] theorem fails_question {q : Q} : ¬(question q : Dialogue ε Q A A).Fails answers n e := by
  simp [Fails, question, run]

@[simp] theorem fails_ofExcept {x : Except ε α} :
    (ofExcept x : Dialogue ε Q A α).Fails answers n e ↔ x = .error e := by
  cases x with
  | ok a => simp [ofExcept]
  | error e' => simp [ofExcept]

@[simp] theorem fails_mapError {f : ε → ε} {d : Dialogue ε Q A α} :
    (d.mapError f).Fails answers n e ↔ ∃ e', d.Fails answers n e' ∧ f e' = e := by
  induction d generalizing n with
  | done a => simp [mapError]
  | fail e' => simp [mapError]
  | ask q next ih => exact ih (answers n q)

@[simp] theorem fails_bind {d : Dialogue ε Q A α} {f : α → Dialogue ε Q A β} :
    (d >>= f).Fails answers n e ↔
      d.Fails answers n e ∨ ∃ a k, d.Returns answers n a k ∧ (f a).Fails answers k e := by
  induction d generalizing n with
  | done a =>
      constructor
      · exact fun h => .inr ⟨a, n, returns_done.mpr ⟨rfl, rfl⟩, h⟩
      · rintro (h | ⟨a', k, hdone, h⟩)
        · exact absurd h fails_done
        · obtain ⟨rfl, rfl⟩ := returns_done.mp hdone
          exact h
  | fail e' => simp [Bind.bind, bind]
  | ask q next ih => exact ih (answers n q)

/-- What every iteration of a loop carries on holds when the loop returns: for the elements
done so far, the number of the next question and the state. -/
theorem returns_foldlM {γ σ : Type} {P : List γ → Nat → σ → Prop} {f : σ → γ → Dialogue ε Q A σ}
    {l : List γ} {s s' : σ}
    (hstep : ∀ earlier x k k' t t', earlier ++ [x] <+: l → P earlier k t →
      (f t x).Returns answers k t' k' → P (earlier ++ [x]) k' t')
    (hstart : P [] n s) (h : (l.foldlM f s).Returns answers n s' m) : P l m s' := by
  have hrest : ∀ (rest earlier : List γ) (k : Nat) (t : σ), earlier ++ rest = l → P earlier k t →
      (rest.foldlM f t).Returns answers k s' m → P l m s' := by
    intro rest
    induction rest with
    | nil =>
        intro earlier k t hl hP hreturns
        obtain ⟨rfl, rfl⟩ := returns_pure.mp hreturns
        rwa [← hl, List.append_nil]
    | cons x rest ih =>
        intro earlier k t hl hP hreturns
        rw [List.foldlM_cons, returns_bind] at hreturns
        obtain ⟨t', k', hx, hreturns⟩ := hreturns
        have hl' : (earlier ++ [x]) ++ rest = l := by rw [← hl, List.append_assoc]; rfl
        exact ih (earlier ++ [x]) k' t' hl' (hstep earlier x k k' t t' ⟨rest, hl'⟩ hP hx) hreturns
  exact hrest l [] n s rfl hstart h

end Runs

section Bounds

theorem within_done (a : α) (b : Nat) : (done a : Dialogue ε Q A α).Within b :=
  fun _ n => Nat.le_add_right n b

theorem within_fail (e : ε) (b : Nat) : (fail e : Dialogue ε Q A α).Within b :=
  fun _ n => Nat.le_add_right n b

theorem within_ofExcept (x : Except ε α) (b : Nat) :
    (ofExcept x : Dialogue ε Q A α).Within b := by
  cases x with
  | ok a => exact within_done a b
  | error e => exact within_fail e b

theorem within_ask {q : Q} {next : A → Dialogue ε Q A α} {b : Nat}
    (h : ∀ answer, (next answer).Within b) : (ask q next).Within (b + 1) := by
  intro answers n
  have hnext := h (answers n q) answers (n + 1)
  rw [run]
  omega

theorem within_question (q : Q) : (question q : Dialogue ε Q A A).Within 1 :=
  within_ask fun answer => within_done answer 0

theorem Within.mono {d : Dialogue ε Q A α} {b c : Nat} (h : d.Within b) (hbc : b ≤ c) :
    d.Within c :=
  fun answers n => Nat.le_trans (h answers n) (Nat.add_le_add_left hbc n)

theorem Within.mapError {d : Dialogue ε Q A α} {b : Nat} (h : d.Within b) (f : ε → ε) :
    (d.mapError f).Within b := by
  intro answers n
  have hrun : ((d.mapError f).run answers n).2 = (d.run answers n).2 := by
    clear h
    induction d generalizing n with
    | done a => rfl
    | fail e => rfl
    | ask q next ih => exact ih (answers n q) (n + 1)
  rw [hrun]
  exact h answers n

theorem Within.bind {d : Dialogue ε Q A α} {f : α → Dialogue ε Q A β} {b c : Nat}
    (hd : d.Within b) (hf : ∀ a, (f a).Within c) : (d >>= f).Within (b + c) := by
  intro answers n
  have hrun : ((d >>= f).run answers n).2 ≤ (d.run answers n).2 + c := by
    clear hd
    induction d generalizing n with
    | done a => exact hf a answers n
    | fail e => exact Nat.le_add_right n c
    | ask q next ih => exact ih (answers n q) (n + 1)
  have := hd answers n
  omega

end Bounds

end Dialogue
