/-!
# Finite maps in key order

A `Dict κ α` is a list of entries with strictly increasing keys, so two maps with the same
look-ups are the same map, and walking the entries visits the keys in order.

* `Dict.get?_insert`, `Dict.get?_erase`: what writing and removing do to look-ups;
* `Dict.ext_get?`: a map is determined by its look-ups.

The operations on bare entry lists (`Entries`) stand on their own: they are what the members
of a JSON object are built with.
-/

set_option linter.unusedSectionVars false

namespace UiSync

variable {κ α β : Type}

/-! ## Entry lists -/

namespace Entries

/-- the value stored under `k` -/
def find? [Ord κ] (k : κ) : List (κ × α) → Option α
  | [] => none
  | (k', a) :: rest => if compare k k' = .eq then some a else find? k rest

/-- writes `a` under `k`, keeping the keys in order -/
def insert [Ord κ] (k : κ) (a : α) : List (κ × α) → List (κ × α)
  | [] => [(k, a)]
  | (k', b) :: rest =>
    match compare k k' with
    | .lt => (k, a) :: (k', b) :: rest
    | .eq => (k, a) :: rest
    | .gt => (k', b) :: insert k a rest

/-- drops what is stored under `k` -/
def erase [Ord κ] (k : κ) (es : List (κ × α)) : List (κ × α) :=
  es.filter fun e => compare k e.1 != .eq

/-- keys strictly increase along the list -/
def Sorted [Ord κ] (es : List (κ × α)) : Prop :=
  es.Pairwise fun a b => compare a.1 b.1 = .lt

variable [Ord κ]

theorem mem_insert {k : κ} {a : α} {e : κ × α} {es : List (κ × α)}
    (h : e ∈ insert k a es) : e = (k, a) ∨ e ∈ es := by
  induction es with
  | nil => simpa [insert] using h
  | cons x rest ih =>
    obtain ⟨k', b⟩ := x
    rw [insert] at h
    split at h <;> simp only [List.mem_cons] at h ⊢
    · exact h
    · exact h.imp_right .inr
    · rcases h with h | h
      · exact .inr (.inl h)
      · exact (ih h).imp_right .inr

variable [Std.TransOrd κ] [Std.LawfulEqOrd κ]

theorem sorted_insert (k : κ) (a : α) {es : List (κ × α)} (h : Sorted es) :
    Sorted (insert k a es) := by
  induction es with
  | nil => simp [insert, Sorted]
  | cons x rest ih =>
    obtain ⟨k', b⟩ := x
    have hx := List.pairwise_cons.1 h
    rw [insert]
    split
    · next hk =>
      refine List.pairwise_cons.2 ⟨fun e he => ?_, h⟩
      rcases List.mem_cons.1 he with rfl | he
      · exact hk
      · exact Std.TransCmp.lt_trans hk (hx.1 e he)
    · next hk =>
      obtain rfl := Std.LawfulEqCmp.eq_of_compare hk
      exact List.pairwise_cons.2 hx
    · next hk =>
      refine List.pairwise_cons.2 ⟨fun e he => ?_, ih hx.2⟩
      rcases mem_insert he with rfl | he
      · exact Std.OrientedCmp.gt_iff_lt.1 hk
      · exact hx.1 e he

theorem find?_insert (k k' : κ) (a : α) (es : List (κ × α)) :
    find? k' (insert k a es) = if compare k' k = .eq then some a else find? k' es := by
  induction es with
  | nil => simp [insert, find?]
  | cons x rest ih =>
    obtain ⟨k₁, b⟩ := x
    rw [insert]
    split
    · simp [find?]
    · next hk =>
      obtain rfl := Std.LawfulEqCmp.eq_of_compare hk
      by_cases h : compare k' k = .eq <;> simp [find?, h]
    · next hk =>
      simp only [find?, ih]
      by_cases h : compare k' k = .eq
      · obtain rfl := Std.LawfulEqCmp.eq_of_compare h
        simp [hk]
      · simp [h]

theorem find?_erase (k k' : κ) (es : List (κ × α)) :
    find? k' (erase k es) = if compare k' k = .eq then none else find? k' es := by
  induction es with
  | nil => simp [erase, find?]
  | cons x rest ih =>
    obtain ⟨k₁, b⟩ := x
    simp only [erase, List.filter_cons, bne_iff_ne] at ih ⊢
    by_cases h : compare k k₁ = .eq
    · obtain rfl := Std.LawfulEqCmp.eq_of_compare h
      by_cases h' : compare k' k = .eq <;> simp_all [find?]
    · by_cases h' : compare k' k = .eq
      · obtain rfl := Std.LawfulEqCmp.eq_of_compare h'
        simp_all [find?]
      · simp_all [find?]

theorem find?_eq_none_of_lt {k : κ} {es : List (κ × α)}
    (h : ∀ e ∈ es, compare k e.1 = .lt) : find? k es = none := by
  induction es with
  | nil => rfl
  | cons x rest ih =>
    have hx := h x (by simp)
    simp [find?, hx, ih fun e he => h e (by simp [he])]

theorem mem_of_find? {k : κ} {a : α} {es : List (κ × α)} (h : find? k es = some a) :
    (k, a) ∈ es := by
  induction es with
  | nil => simp [find?] at h
  | cons x rest ih =>
    obtain ⟨k₁, b⟩ := x
    rw [find?] at h
    split at h
    · next hk =>
      obtain rfl := Std.LawfulEqCmp.eq_of_compare hk
      simp_all
    · exact List.mem_cons_of_mem _ (ih h)

theorem find?_of_mem {k : κ} {a : α} {es : List (κ × α)} (hs : Sorted es)
    (h : (k, a) ∈ es) : find? k es = some a := by
  induction es with
  | nil => simp at h
  | cons x rest ih =>
    obtain ⟨k₁, b⟩ := x
    have hx := List.pairwise_cons.1 hs
    rcases List.mem_cons.1 h with h | h
    · simp only [Prod.mk.injEq] at h
      obtain ⟨rfl, rfl⟩ := h
      simp [find?]
    · have : compare k k₁ = .gt := Std.OrientedCmp.gt_iff_lt.2 (hx.1 _ h)
      simp [find?, this, ih hx.2 h]

theorem eq_of_find? {xs ys : List (κ × α)} (hx : Sorted xs) (hy : Sorted ys)
    (h : ∀ k, find? k xs = find? k ys) : xs = ys := by
  induction xs generalizing ys with
  | nil =>
    cases ys with
    | nil => rfl
    | cons y rest => simpa [find?] using h y.1
  | cons x xs ih =>
    obtain ⟨k, a⟩ := x
    cases ys with
    | nil => simpa [find?] using h k
    | cons y ys =>
      obtain ⟨k', b⟩ := y
      have px := List.pairwise_cons.1 hx
      have py := List.pairwise_cons.1 hy
      have hkk : compare k k' = .eq := by
        have h₁ := (h k).symm
        have h₂ := h k'
        simp only [find?, Std.ReflCmp.compare_self, if_true] at h₁ h₂
        by_cases hk : compare k k' = .eq
        · exact hk
        · have hk' : ¬ compare k' k = .eq := fun e => hk (Std.OrientedCmp.eq_symm e)
          simp only [hk, hk', if_false] at h₁ h₂
          have l₁ := py.1 _ (mem_of_find? h₁)
          have l₂ := px.1 _ (mem_of_find? h₂)
          exact absurd (Std.TransCmp.lt_trans l₁ l₂) (by simp)
      obtain rfl := Std.LawfulEqCmp.eq_of_compare hkk
      have hab : a = b := by simpa [find?] using h k
      subst hab
      congr 1
      refine ih px.2 py.2 fun j => ?_
      by_cases hj : compare j k = .eq
      · obtain rfl := Std.LawfulEqCmp.eq_of_compare hj
        rw [find?_eq_none_of_lt px.1, find?_eq_none_of_lt py.1]
      · simpa [find?, hj] using h j

end Entries

/-! ## Maps -/

/-- a finite map, its entries in strictly increasing key order -/
structure Dict (κ α : Type) [Ord κ] where
  entries : List (κ × α)
  sorted : Entries.Sorted entries

namespace Dict

variable [Ord κ]

def empty : Dict κ α := ⟨[], .nil⟩

instance : EmptyCollection (Dict κ α) := ⟨empty⟩
instance : Inhabited (Dict κ α) := ⟨empty⟩

def get? (d : Dict κ α) (k : κ) : Option α := Entries.find? k d.entries

def contains (d : Dict κ α) (k : κ) : Bool := (d.get? k).isSome

def keys (d : Dict κ α) : List κ := d.entries.map Prod.fst

def values (d : Dict κ α) : List α := d.entries.map Prod.snd

def size (d : Dict κ α) : Nat := d.entries.length

def isEmpty (d : Dict κ α) : Bool := d.entries.isEmpty

def erase (d : Dict κ α) (k : κ) : Dict κ α :=
  ⟨Entries.erase k d.entries, d.sorted.filter _⟩

/-- keeps the entries that pass `p` -/
def filter (p : κ → α → Bool) (d : Dict κ α) : Dict κ α :=
  ⟨d.entries.filter fun e => p e.1 e.2, d.sorted.filter _⟩

/-- applies `f` to every value -/
def map (f : κ → α → β) (d : Dict κ α) : Dict κ β :=
  ⟨d.entries.map fun e => (e.1, f e.1 e.2), by
    simpa only [Entries.Sorted, List.pairwise_map] using d.sorted⟩

/-- applies `f` to every value and drops the entries without a result -/
def filterMap (f : κ → α → Option β) (d : Dict κ α) : Dict κ β :=
  ⟨d.entries.filterMap fun e => (f e.1 e.2).map (e.1, ·), by
    refine List.Pairwise.filterMap _ (fun a b h a' ha b' hb => ?_) d.sorted
    simp only [Option.map_eq_some_iff] at ha hb
    obtain ⟨_, _, rfl⟩ := ha
    obtain ⟨_, _, rfl⟩ := hb
    exact h⟩

variable [Std.TransOrd κ] [Std.LawfulEqOrd κ]

def insert (d : Dict κ α) (k : κ) (a : α) : Dict κ α :=
  ⟨Entries.insert k a d.entries, Entries.sorted_insert k a d.sorted⟩

/-- applies `f` to the value under `k`, if there is one -/
def modify (d : Dict κ α) (k : κ) (f : α → α) : Dict κ α :=
  match d.get? k with
  | some a => d.insert k (f a)
  | none => d

/-- a map from entries in any order, the last of equal keys winning -/
def ofList (es : List (κ × α)) : Dict κ α :=
  es.foldl (fun d e => d.insert e.1 e.2) ∅

/-! ### Look-ups -/

@[simp] theorem get?_empty (k : κ) : (∅ : Dict κ α).get? k = none := rfl

theorem get?_insert (d : Dict κ α) (k k' : κ) (a : α) :
    (d.insert k a).get? k' = if compare k' k = .eq then some a else d.get? k' :=
  Entries.find?_insert ..

@[simp] theorem get?_insert_self (d : Dict κ α) (k : κ) (a : α) :
    (d.insert k a).get? k = some a := by
  simp [get?_insert]

theorem get?_erase (d : Dict κ α) (k k' : κ) :
    (d.erase k).get? k' = if compare k' k = .eq then none else d.get? k' :=
  Entries.find?_erase ..

@[simp] theorem get?_erase_self (d : Dict κ α) (k : κ) : (d.erase k).get? k = none := by
  simp [get?_erase]

theorem get?_eq_some_iff {d : Dict κ α} {k : κ} {a : α} :
    d.get? k = some a ↔ (k, a) ∈ d.entries :=
  ⟨Entries.mem_of_find?, Entries.find?_of_mem d.sorted⟩

theorem size_erase_lt {d : Dict κ α} {k : κ} {a : α} (h : d.get? k = some a) :
    (d.erase k).size < d.size := by
  have hm := get?_eq_some_iff.1 h
  exact List.length_filter_lt_length_iff_exists.2 ⟨(k, a), hm, by simp⟩

theorem ext_get? {d e : Dict κ α} (h : ∀ k, d.get? k = e.get? k) : d = e := by
  obtain ⟨xs, hx⟩ := d
  obtain ⟨ys, hy⟩ := e
  congr
  exact Entries.eq_of_find? hx hy h

end Dict

end UiSync
