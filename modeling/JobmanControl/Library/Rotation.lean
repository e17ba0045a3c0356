import Mathlib.Data.List.Perm.Subperm
import Mathlib.Order.Lattice

/-!
Serving whoever was served least recently. Every client has the time of its last turn. If
each turn goes to a client that was served no later than one that waits, the one that waits
is passed over at most once by each other client.
-/

namespace Rotation

variable {κ τ : Type} [DecidableEq κ] [LinearOrder τ]

/-- Each turn serves a client that was served no later than `n`, and is later than the last
turn of `n`. -/
def Fair (n : κ) : (κ → τ) → List (κ × τ) → Prop
  | _, [] => True
  | last, (m, t) :: rest => last m ≤ last n ∧ last n < t ∧ Fair n (Function.update last m t) rest

variable {n : κ} {last : κ → τ} {turns : List (κ × τ)}

theorem Fair.unserved (h : Fair n last turns) (hn : n ∉ turns.map Prod.fst) {m : κ}
    (hm : last n < last m) : m ∉ turns.map Prod.fst := by
  induction turns generalizing last with
  | nil => exact List.not_mem_nil
  | cons turn rest ih =>
      obtain ⟨k, t⟩ := turn
      obtain ⟨hle, -, hrest⟩ := h
      rw [List.map_cons, List.mem_cons, not_or] at hn
      have hmk : m ≠ k := by
        rintro rfl
        exact absurd hle (not_le.mpr hm)
      rw [List.map_cons, List.mem_cons, not_or]
      refine ⟨hmk, ih hrest hn.2 ?_⟩
      rw [Function.update_of_ne hn.1, Function.update_of_ne hmk]
      exact hm

/-- While one client waits, every other one is served at most once. -/
theorem Fair.nodup (h : Fair n last turns) (hn : n ∉ turns.map Prod.fst) :
    (turns.map Prod.fst).Nodup := by
  induction turns generalizing last with
  | nil => exact List.nodup_nil
  | cons turn rest ih =>
      obtain ⟨k, t⟩ := turn
      obtain ⟨-, hlt, hrest⟩ := h
      rw [List.map_cons, List.mem_cons, not_or] at hn
      rw [List.map_cons, List.nodup_cons]
      refine ⟨hrest.unserved hn.2 ?_, ih hrest hn.2⟩
      rw [Function.update_of_ne hn.1, Function.update_self]
      exact hlt

/-- Among `clients` the one that waits is served within as many turns as there are clients. -/
theorem Fair.served (h : Fair n last turns) (clients : List κ) (hn : n ∈ clients)
    (hall : ∀ m ∈ turns.map Prod.fst, m ∈ clients) (hlength : clients.length ≤ turns.length) :
    n ∈ turns.map Prod.fst := by
  by_contra hwaits
  have hnodup : (n :: turns.map Prod.fst).Nodup := List.nodup_cons.mpr ⟨hwaits, h.nodup hwaits⟩
  have hsubset : n :: turns.map Prod.fst ⊆ clients := List.cons_subset.mpr ⟨hn, hall⟩
  have hle := (List.subperm_of_subset hnodup hsubset).length_le
  rw [List.length_cons, List.length_map] at hle
  omega

end Rotation
