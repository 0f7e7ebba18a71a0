import Mathlib
import UiSync.Dict

/-!
# Look-ups after the operations on maps

`Dict.get?_insert` and `Dict.get?_erase` describe two operations through look-ups.  Here the
others follow: mapping, filtering, changing one value in place, erasing many keys, and folding
a list of writes and removals (`Dict.get?_foldl_put`).  Keys are decided by equality.
-/

set_option linter.unusedSectionVars false

namespace UiSync

variable {κ α β : Type}

namespace Entries

variable [Ord κ] [Std.TransOrd κ] [Std.LawfulEqOrd κ]

theorem compare_eq_iff {k k' : κ} : compare k k' = .eq ↔ k = k' :=
  ⟨Std.LawfulEqCmp.eq_of_compare, fun h => h ▸ Std.ReflCmp.compare_self⟩

theorem find?_map (k : κ) (f : κ → α → β) (es : List (κ × α)) :
    find? k (es.map fun e => (e.1, f e.1 e.2)) = (find? k es).map (f k) := by
  induction es with
  | nil => rfl
  | cons x rest ih =>
    obtain ⟨k₁, b⟩ := x
    by_cases h : compare k k₁ = .eq
    · obtain rfl := compare_eq_iff.1 h
      simp [find?]
    · simp [find?, h, ih]

theorem find?_filterMap (k : κ) (f : κ → α → Option β) {es : List (κ × α)} (hs : Sorted es) :
    find? k (es.filterMap fun e => (f e.1 e.2).map (e.1, ·)) = (find? k es).bind (f k) := by
  induction es with
  | nil => rfl
  | cons x rest ih =>
    obtain ⟨k₁, b⟩ := x
    have hx := List.pairwise_cons.1 hs
    rw [List.filterMap_cons]
    by_cases h : compare k k₁ = .eq
    · obtain rfl := compare_eq_iff.1 h
      cases hf : f k b with
      | some c => simp [find?, hf]
      | none =>
        simp only [Option.map_none, find?, Std.ReflCmp.compare_self, if_true, Option.bind_some, hf]
        rw [ih hx.2, find?_eq_none_of_lt hx.1]
        rfl
    · cases hf : f k₁ b <;> simp [find?, h, ih hx.2]

end Entries

namespace Dict

variable [Ord κ] [Std.TransOrd κ] [Std.LawfulEqOrd κ]

theorem get?_insert_of_ne {k k' : κ} (h : k' ≠ k) (d : Dict κ α) (a : α) :
    (d.insert k a).get? k' = d.get? k' := by
  rw [get?_insert, if_neg fun e => h (Entries.compare_eq_iff.1 e)]

theorem get?_erase_of_ne {k k' : κ} (h : k' ≠ k) (d : Dict κ α) :
    (d.erase k).get? k' = d.get? k' := by
  rw [get?_erase, if_neg fun e => h (Entries.compare_eq_iff.1 e)]

theorem get?_insert_eq_some {k k' : κ} {d : Dict κ α} {a a' : α} :
    (d.insert k a).get? k' = some a' ↔ k' = k ∧ a = a' ∨ k' ≠ k ∧ d.get? k' = some a' := by
  rcases eq_or_ne k' k with rfl | hne
  · simp
  · simp [get?_insert_of_ne hne, hne]

theorem get?_erase_eq_some {k k' : κ} {d : Dict κ α} {a : α} :
    (d.erase k).get? k' = some a ↔ k' ≠ k ∧ d.get? k' = some a := by
  rcases eq_or_ne k' k with rfl | hne
  · simp
  · simp [get?_erase_of_ne hne, hne]

@[simp] theorem get?_map (f : κ → α → β) (d : Dict κ α) (k : κ) :
    (d.map f).get? k = (d.get? k).map (f k) :=
  Entries.find?_map k f d.entries

@[simp] theorem get?_filterMap (f : κ → α → Option β) (d : Dict κ α) (k : κ) :
    (d.filterMap f).get? k = (d.get? k).bind (f k) :=
  Entries.find?_filterMap k f d.sorted

theorem filter_eq_filterMap (p : κ → α → Bool) (d : Dict κ α) :
    d.filter p = d.filterMap fun k a => if p k a then some a else none := by
  have h (es : List (κ × α)) : es.filter (fun e => p e.1 e.2) =
      es.filterMap fun e => (if p e.1 e.2 then some e.2 else none).map (e.1, ·) := by
    induction es with
    | nil => rfl
    | cons x rest ih => by_cases h : p x.1 x.2 <;> simp [h, ih]
  simp only [filter, filterMap, h]

@[simp] theorem get?_filter (p : κ → α → Bool) (d : Dict κ α) (k : κ) :
    (d.filter p).get? k = (d.get? k).filter (p k) := by
  rw [filter_eq_filterMap, get?_filterMap]
  cases d.get? k with
  | none => rfl
  | some a => by_cases h : p k a <;> simp [Option.filter, h]

@[simp] theorem get?_modify_self (d : Dict κ α) (k : κ) (f : α → α) :
    (d.modify k f).get? k = (d.get? k).map f := by
  unfold modify
  cases h : d.get? k with
  | none => exact h
  | some a => simp

theorem get?_modify_of_ne {k k' : κ} (h : k' ≠ k) (d : Dict κ α) (f : α → α) :
    (d.modify k f).get? k' = d.get? k' := by
  unfold modify
  cases d.get? k with
  | none => rfl
  | some a => exact get?_insert_of_ne h d (f a)

theorem contains_iff {d : Dict κ α} {k : κ} : d.contains k = true ↔ ∃ a, d.get? k = some a := by
  rw [contains, Option.isSome_iff_exists]

theorem get?_eraseAll_of_notMem {ks : List κ} {k : κ} (h : k ∉ ks) (d : Dict κ α) :
    (ks.foldl erase d).get? k = d.get? k := by
  induction ks generalizing d with
  | nil => rfl
  | cons j ks ih =>
    obtain ⟨hj, hk⟩ := not_or.1 (List.mem_cons.not.1 h)
    rw [List.foldl_cons, ih hk, get?_erase_of_ne hj]

theorem get?_eraseAll_of_mem {ks : List κ} {k : κ} (h : k ∈ ks) (d : Dict κ α) :
    (ks.foldl erase d).get? k = none := by
  induction ks generalizing d with
  | nil => cases h
  | cons j ks ih =>
    rw [List.foldl_cons]
    by_cases hk : k ∈ ks
    · exact ih hk _
    · obtain rfl := (List.mem_cons.1 h).resolve_right hk
      rw [get?_eraseAll_of_notMem hk, get?_erase_self]

/-! ## Keys -/

theorem mem_keys {d : Dict κ α} {k : κ} : k ∈ d.keys ↔ ∃ a, d.get? k = some a := by
  rw [keys, List.mem_map]
  constructor
  · rintro ⟨e, he, rfl⟩
    exact ⟨e.2, get?_eq_some_iff.2 he⟩
  · rintro ⟨a, ha⟩
    exact ⟨(k, a), get?_eq_some_iff.1 ha, rfl⟩

theorem length_le_size {ks : List κ} {d : Dict κ α} (hn : ks.Nodup)
    (h : ∀ k ∈ ks, ∃ a, d.get? k = some a) : ks.length ≤ d.size := by
  have hsub : ks ⊆ d.keys := fun k hk => mem_keys.2 (h k hk)
  have hle : ks.length ≤ d.keys.length := (List.subperm_of_subset hn hsub).length_le
  rwa [keys, List.length_map] at hle

theorem isEmpty_iff {d : Dict κ α} : d.isEmpty = true ↔ ∀ k, d.get? k = none := by
  constructor
  · intro h k
    have he : d.entries = [] := List.isEmpty_iff.1 h
    rw [get?, he]
    rfl
  · intro h
    rw [isEmpty, List.isEmpty_iff, List.eq_nil_iff_forall_not_mem]
    intro e he
    have := get?_eq_some_iff.2 he
    rw [h e.1] at this
    cases this

/-- the entries are the one of a key that is there and those without it -/
theorem perm_cons_erase {d : Dict κ α} {k : κ} {a : α} (h : d.get? k = some a) :
    d.entries.Perm ((k, a) :: (d.erase k).entries) := by
  have hnodup (d : Dict κ α) : d.entries.Nodup := d.sorted.imp fun {e f} hlt => by
    rintro rfl
    cases (Entries.compare_eq_iff.2 rfl).symm.trans hlt
  have hnot : (k, a) ∉ (d.erase k).entries := fun hmem => by
    have herased := get?_eq_some_iff.2 hmem
    rw [get?_erase_self] at herased
    cases herased
  refine (List.perm_ext_iff_of_nodup (hnodup d)
    (List.nodup_cons.2 ⟨hnot, hnodup (d.erase k)⟩)).2 fun e => ?_
  obtain ⟨j, b⟩ := e
  rw [List.mem_cons, ← get?_eq_some_iff, ← get?_eq_some_iff, get?_erase_eq_some]
  constructor
  · intro hj
    rcases eq_or_ne j k with rfl | hne
    · rw [h] at hj
      exact .inl (congrArg _ (Option.some.inj hj).symm)
    · exact .inr ⟨hne, hj⟩
  · rintro (he | ⟨-, hj⟩)
    · cases he
      exact h
    · exact hj

/-! ## Folding writes and removals -/

/-- writes a value under a key, or removes what is there -/
def put (d : Dict κ α) (k : κ) : Option α → Dict κ α
  | none => d.erase k
  | some a => d.insert k a

@[simp] theorem get?_put_self (d : Dict κ α) (k : κ) (a : Option α) : (d.put k a).get? k = a := by
  cases a with
  | none => exact get?_erase_self d k
  | some a => exact get?_insert_self d k a

theorem get?_put_of_ne {k k' : κ} (h : k' ≠ k) (d : Dict κ α) (a : Option α) :
    (d.put k a).get? k' = d.get? k' := by
  cases a with
  | none => exact get?_erase_of_ne h d
  | some a => exact get?_insert_of_ne h d a

theorem get?_foldl_put_entries (f : β → Option α) {es : List (κ × β)} (hs : Entries.Sorted es)
    (d : Dict κ α) (k : κ) :
    (es.foldl (fun d e => d.put e.1 (f e.2)) d).get? k =
      ((Entries.find? k es).map f).getD (d.get? k) := by
  induction es generalizing d with
  | nil => rfl
  | cons x rest ih =>
    obtain ⟨j, b⟩ := x
    have hx := List.pairwise_cons.1 hs
    rw [List.foldl_cons, ih hx.2]
    by_cases h : compare k j = .eq
    · obtain rfl := Entries.compare_eq_iff.1 h
      rw [Entries.find?_eq_none_of_lt hx.1]
      simp [Entries.find?]
    · have hne : k ≠ j := fun e => h (Entries.compare_eq_iff.2 e)
      simp [Entries.find?, h, get?_put_of_ne hne]

/-- the keys of a map of writes and removals give what it holds, the others stay -/
theorem get?_foldl_put (f : β → Option α) (w : Dict κ β) (d : Dict κ α) (k : κ) :
    (w.entries.foldl (fun d e => d.put e.1 (f e.2)) d).get? k =
      ((w.get? k).map f).getD (d.get? k) :=
  get?_foldl_put_entries f w.sorted d k

end Dict

end UiSync
