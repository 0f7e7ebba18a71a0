import Mathlib

/-!
# Lists

Three things about lists that runs and listings need: how a list with one more element at its end
splits (`concat_eq_append_cons`), what a fold keeps that succeeds (`foldlM_keeps`), and what can be
done to items before or after they are sorted (`map_mergeSort_of_pairwise`).
-/

namespace UiSync

variable {α β : Type}

/-- a list split at an element ends with it, or goes on to the last one -/
theorem concat_eq_append_cons {l before after : List α} {last a : α}
    (h : l ++ [last] = before ++ a :: after) :
    l = before ∧ last = a ∧ after = [] ∨
      ∃ rest, after = rest ++ [last] ∧ l = before ++ a :: rest := by
  rcases List.eq_nil_or_concat after with rfl | ⟨rest, final, rfl⟩
  · obtain ⟨hl, hlast⟩ := List.append_inj' h rfl
    exact .inl ⟨hl, (List.cons.inj hlast).1, rfl⟩
  · rw [List.concat_eq_append, ← List.cons_append, ← List.append_assoc] at h
    obtain ⟨hl, hlast⟩ := List.append_inj' h rfl
    rw [List.concat_eq_append, hlast]
    exact .inr ⟨rest, rfl, hl⟩

/-- what every step of a fold that succeeds keeps, the fold keeps -/
theorem foldlM_keeps {ε : Type} {f : β → α → Except ε β} {P : β → Prop}
    (hf : ∀ b a b', P b → f b a = .ok b' → P b') {l : List α} {b b' : β} (hb : P b)
    (h : l.foldlM f b = .ok b') : P b' := by
  induction l generalizing b with
  | nil =>
    cases h
    exact hb
  | cons a l ih =>
    rw [List.foldlM_cons] at h
    cases ha : f b a with
    | error e =>
      rw [ha] at h
      cases h
    | ok b₁ =>
      rw [ha] at h
      exact ih (hf b a b₁ hb ha) h

/-! ## Sorting -/

theorem mergeSort_halves (le : α → α → Bool) {l : List α} (h : 2 ≤ l.length) :
    l.mergeSort le = ((l.take ((l.length + 1) / 2)).mergeSort le).merge
      ((l.drop ((l.length + 1) / 2)).mergeSort le) le := by
  match l, h with
  | a :: b :: l, _ =>
    rw [List.mergeSort]
    simp only [List.MergeSort.Internal.splitInTwo_fst, List.MergeSort.Internal.splitInTwo_snd]

/-- A merge sort compares earlier items with later ones only.  What keeps these comparisons can be
done to the items before or after sorting; `List.map_mergeSort` asks it of all pairs. -/
theorem map_mergeSort_of_pairwise {r : α → α → Bool} {s : β → β → Bool} {f : α → β} {l : List α}
    (h : l.Pairwise fun a b => r a b = s (f a) (f b)) :
    (l.mergeSort r).map f = (l.map f).mergeSort s := by
  induction hn : l.length using Nat.strong_induction_on generalizing l with
  | _ n ih =>
    subst hn
    rcases Nat.lt_or_ge l.length 2 with hshort | hlong
    · match l, hshort with
      | [], _ => simp
      | [_], _ => simp
    · rw [mergeSort_halves r hlong, mergeSort_halves s (by rwa [List.length_map]),
        List.length_map, ← List.map_take, ← List.map_drop]
      generalize hhalf : (l.length + 1) / 2 = half
      rw [← List.take_append_drop half l] at h
      obtain ⟨hleft, hright, hacross⟩ := List.pairwise_append.1 h
      rw [← ih (l.take half).length (by rw [List.length_take]; omega) hleft rfl,
        ← ih (l.drop half).length (by rw [List.length_drop]; omega) hright rfl]
      exact List.map_merge fun x hx y hy =>
        hacross x (List.mem_mergeSort.1 hx) y (List.mem_mergeSort.1 hy)

end UiSync
