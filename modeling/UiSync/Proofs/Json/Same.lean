import Mathlib
import UiSync.Json.Value

/-!
# The equality of values is an equivalence

`Value.same` identifies the two zeros of the doubles, at any depth, and nothing else.  It is
reflexive, symmetric and transitive, and values that are the same are both `null` or both not.
-/

namespace UiSync.Json

namespace Double

theorem same_refl (x : Double) : x.same x = true := by
  simp [same]

theorem same_symm {x y : Double} (h : x.same y = true) : y.same x = true := by
  simp only [same, Bool.and_eq_true, Bool.or_eq_true, beq_iff_eq] at h ⊢
  obtain ⟨hm, hs⟩ := h
  exact ⟨hm.symm, hs.imp Eq.symm fun hz => hm ▸ hz⟩

theorem same_trans {x y z : Double} (hxy : x.same y = true) (hyz : y.same z = true) :
    x.same z = true := by
  simp only [same, Bool.and_eq_true, Bool.or_eq_true, beq_iff_eq] at hxy hyz ⊢
  obtain ⟨hm, hs⟩ := hxy
  obtain ⟨hm', hs'⟩ := hyz
  refine ⟨hm.trans hm', ?_⟩
  rcases hs with hs | hz
  · rcases hs' with hs' | hz
    · exact .inl (hs.trans hs')
    · exact .inr (hm.trans hz)
  · exact .inr hz

end Double

namespace Value

/-! ## Reflexivity -/

mutual

theorem same_refl : ∀ v : Value, v.same v = true
  | null => rfl
  | bool b => by simp [same]
  | integer n => by simp [same]
  | float x => x.same_refl
  | string s => by simp [same]
  | array xs => sameItems_refl xs
  | object es => sameMembers_refl es

theorem sameItems_refl : ∀ xs : List Value, sameItems xs xs = true
  | [] => rfl
  | x :: xs => by
    rw [sameItems, same_refl x, sameItems_refl xs]
    rfl

theorem sameMembers_refl : ∀ es : List (String × Value), sameMembers es es = true
  | [] => rfl
  | (k, x) :: es => by
    rw [sameMembers, same_refl x, sameMembers_refl es, beq_self_eq_true]
    rfl

end

/-! ## Symmetry -/

mutual

theorem same_symm : ∀ {v w : Value}, v.same w = true → w.same v = true
  | null, w, h => by cases w <;> simp_all [same]
  | bool b, w, h => by cases w <;> simp_all [same]
  | integer n, w, h => by cases w <;> simp_all [same]
  | float x, w, h => by
    cases w with
    | float y => exact Double.same_symm h
    | _ => simp [same] at h
  | string s, w, h => by cases w <;> simp_all [same]
  | array xs, w, h => by
    cases w with
    | array ys => exact sameItems_symm (v := xs) h
    | _ => simp [same] at h
  | object es, w, h => by
    cases w with
    | object fs => exact sameMembers_symm (v := es) h
    | _ => simp [same] at h

theorem sameItems_symm : ∀ {v w : List Value}, sameItems v w = true → sameItems w v = true
  | [], w, h => by cases w <;> simp_all [sameItems]
  | x :: xs, w, h => by
    cases w with
    | nil => simp [sameItems] at h
    | cons y ys =>
      simp only [sameItems, Bool.and_eq_true] at h ⊢
      exact ⟨same_symm h.1, sameItems_symm h.2⟩

theorem sameMembers_symm : ∀ {v w : List (String × Value)},
    sameMembers v w = true → sameMembers w v = true
  | [], w, h => by cases w <;> simp_all [sameMembers]
  | (k, x) :: es, w, h => by
    cases w with
    | nil => simp [sameMembers] at h
    | cons f fs =>
      obtain ⟨l, y⟩ := f
      simp only [sameMembers, Bool.and_eq_true, beq_iff_eq] at h ⊢
      exact ⟨⟨h.1.1.symm, same_symm h.1.2⟩, sameMembers_symm h.2⟩

end

/-! ## Transitivity -/

mutual

theorem same_trans : ∀ {u v w : Value}, u.same v = true → v.same w = true → u.same w = true
  | null, v, w, h, h' => by cases v <;> cases w <;> simp_all [same]
  | bool b, v, w, h, h' => by cases v <;> cases w <;> simp_all [same]
  | integer n, v, w, h, h' => by cases v <;> cases w <;> simp_all [same]
  | float x, v, w, h, h' => by
    cases v with
    | float y =>
      cases w with
      | float z => exact Double.same_trans h h'
      | _ => simp [same] at h'
    | _ => simp [same] at h
  | string s, v, w, h, h' => by cases v <;> cases w <;> simp_all [same]
  | array xs, v, w, h, h' => by
    cases v with
    | array ys =>
      cases w with
      | array zs => exact sameItems_trans (u := xs) (v := ys) h h'
      | _ => simp [same] at h'
    | _ => simp [same] at h
  | object es, v, w, h, h' => by
    cases v with
    | object fs =>
      cases w with
      | object gs => exact sameMembers_trans (u := es) (v := fs) h h'
      | _ => simp [same] at h'
    | _ => simp [same] at h

theorem sameItems_trans : ∀ {u v w : List Value},
    sameItems u v = true → sameItems v w = true → sameItems u w = true
  | [], v, w, h, h' => by cases v <;> cases w <;> simp_all [sameItems]
  | x :: xs, v, w, h, h' => by
    cases v with
    | nil => simp [sameItems] at h
    | cons y ys =>
      cases w with
      | nil => simp [sameItems] at h'
      | cons z zs =>
        simp only [sameItems, Bool.and_eq_true] at h h' ⊢
        exact ⟨same_trans h.1 h'.1, sameItems_trans h.2 h'.2⟩

theorem sameMembers_trans : ∀ {u v w : List (String × Value)},
    sameMembers u v = true → sameMembers v w = true → sameMembers u w = true
  | [], v, w, h, h' => by cases v <;> cases w <;> simp_all [sameMembers]
  | (k, x) :: es, v, w, h, h' => by
    cases v with
    | nil => simp [sameMembers] at h
    | cons f fs =>
      obtain ⟨l, y⟩ := f
      cases w with
      | nil => simp [sameMembers] at h'
      | cons g gs =>
        obtain ⟨m, z⟩ := g
        simp only [sameMembers, Bool.and_eq_true, beq_iff_eq] at h h' ⊢
        exact ⟨⟨h.1.1.trans h'.1.1, same_trans h.1.2 h'.1.2⟩, sameMembers_trans h.2 h'.2⟩

end

theorem isNull_congr {v w : Value} (h : v.same w = true) : v.isNull = w.isNull := by
  cases v <;> cases w <;> first | rfl | simp [same] at h

/-- a text or an integer, which is the same as itself only -/
inductive Sharp : Value → Prop
  | string (s : String) : Sharp (.string s)
  | integer (n : Integer) : Sharp (.integer n)

theorem Sharp.eq {v w : Value} (hw : w.Sharp) (h : v.same w = true) : v = w := by
  cases hw with
  | string s =>
    cases v with
    | string t => exact congrArg Value.string (beq_iff_eq.1 h)
    | _ => cases h
  | integer n =>
    cases v with
    | integer m =>
      have hval : m.val = n.val := beq_iff_eq.1 h
      cases m
      cases n
      obtain rfl := hval
      rfl
    | _ => cases h

theorem Sharp.isNull {v : Value} (h : v.Sharp) : v.isNull = false := by
  cases h with
  | string s => rfl
  | integer n => rfl

theorem sharp_ofInt {n : Int} (hlow : -0x8000000000000000 ≤ n) (hhigh : n < 0x10000000000000000) :
    (ofInt n).Sharp := by
  have hn : ofInt n = .integer ⟨n, hlow, hhigh⟩ := by
    rw [ofInt, Integer.ofInt?, dif_pos ⟨hlow, hhigh⟩]
    rfl
  rw [hn]
  exact .integer _

end Value

end UiSync.Json
