import Mathlib.Data.List.Basic

/-!
Codes that can be read off the front of a longer text. A word of such a code tells where it
ends, so that words written one after another can be told apart again, whatever symbols
they are made of.
-/

namespace PrefixCode

variable {α β γ : Type}

/-- A word in front of a text determines what it encodes and the rest of the text. -/
def Readable (encode : α → List β) : Prop :=
  ∀ a a' s s', encode a ++ s = encode a' ++ s' → a = a' ∧ s = s'

theorem Readable.injective {encode : α → List β} (h : Readable encode) :
    Function.Injective encode := by
  intro a a' heq
  exact (h a a' [] [] (by rw [heq])).1

theorem Readable.pair {encode : α → List β} {encode' : γ → List β} (h : Readable encode)
    (h' : Readable encode') : Readable fun p : α × γ => encode p.1 ++ encode' p.2 := by
  rintro ⟨a, c⟩ ⟨a', c'⟩ s s' heq
  simp only [List.append_assoc] at heq
  obtain ⟨rfl, hrest⟩ := h _ _ _ _ heq
  obtain ⟨rfl, rfl⟩ := h' _ _ _ _ hrest
  exact ⟨rfl, rfl⟩

/-- Equally many words in front of a text determine what they encode. -/
theorem Readable.flatMap_append {encode : α → List β} (h : Readable encode) {l l' : List α}
    (hlength : l.length = l'.length) {s s' : List β}
    (heq : l.flatMap encode ++ s = l'.flatMap encode ++ s') : l = l' ∧ s = s' := by
  induction l generalizing l' with
  | nil =>
      cases List.length_eq_zero_iff.mp hlength.symm
      exact ⟨rfl, heq⟩
  | cons a l ih =>
      cases l' with
      | nil => cases hlength
      | cons a' l' =>
          simp only [List.flatMap_cons, List.append_assoc] at heq
          obtain ⟨rfl, hrest⟩ := h _ _ _ _ heq
          obtain ⟨rfl, rfl⟩ := ih (Nat.succ.inj hlength) hrest
          exact ⟨rfl, rfl⟩

theorem Readable.counted {size : Nat → List β} (hsize : Readable size) {encode : α → List β}
    (h : Readable encode) : Readable fun l : List α => size l.length ++ l.flatMap encode := by
  intro l l' s s' heq
  simp only [List.append_assoc] at heq
  obtain ⟨hlength, hrest⟩ := hsize _ _ _ _ heq
  exact h.flatMap_append hlength hrest

theorem Readable.sized {size : Nat → List β} (hsize : Readable size) :
    Readable fun text : List β => size text.length ++ text := by
  intro l l' s s' heq
  simp only [List.append_assoc] at heq
  obtain ⟨hlength, hrest⟩ := hsize _ _ _ _ heq
  exact List.append_inj hrest hlength

/-- Words that end with a symbol that does not occur in them. -/
theorem readable_terminated (stop : β) {encode : α → List β}
    (hinjective : Function.Injective encode) (hstop : ∀ a, stop ∉ encode a) :
    Readable fun a => encode a ++ [stop] := by
  have hends : ∀ l l' s s' : List β, stop ∉ l → stop ∉ l' → l ++ stop :: s = l' ++ stop :: s' →
      l = l' ∧ s = s' := by
    intro l
    induction l with
    | nil =>
        intro l' s s' _ hl' heq
        cases l' with
        | nil => exact ⟨rfl, (List.cons.inj heq).2⟩
        | cons b l' => exact absurd ((List.cons.inj heq).1 ▸ List.mem_cons_self) hl'
    | cons b l ih =>
        intro l' s s' hl hl' heq
        cases l' with
        | nil => exact absurd ((List.cons.inj heq).1 ▸ List.mem_cons_self) hl
        | cons b' l' =>
            obtain ⟨rfl, hrest⟩ := List.cons.inj heq
            obtain ⟨rfl, rfl⟩ := ih l' s s' (fun h => hl (List.mem_cons_of_mem _ h))
              (fun h => hl' (List.mem_cons_of_mem _ h)) hrest
            exact ⟨rfl, rfl⟩
  intro a a' s s' heq
  simp only [List.append_assoc, List.singleton_append] at heq
  obtain ⟨hword, hs⟩ := hends _ _ s s' (hstop a) (hstop a') heq
  exact ⟨hinjective hword, hs⟩

end PrefixCode
