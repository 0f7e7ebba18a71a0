import UiSync.FieldBag
import UiSync.Proofs.Dict
import UiSync.Proofs.Json.Same
import UiSync.Replica

/-!
# What a field bag knows of its last send

`FieldBag.Tracked` is the invariant of the bookkeeping: a bag that counts as unsent remembers no
sent fields, and one that was sent has touched every field that differs from what was sent.
Edits, commits and requests for a full resend keep it.

A copy of the fields that agrees with the visible (not `null`) part of what was sent agrees with
the visible part of the current fields once the pending difference is merged in
(`FieldBag.Tracked.merge_pendingDiff`).  Agreement is `SameFields`, the equality of values the
program itself compares with.
-/

namespace UiSync

open Json

namespace FieldBag

/-! ## Fields that are the same -/

theorem sameField_refl (v : Option Value) : sameField v v = true := by
  cases v with
  | none => rfl
  | some v => exact v.same_refl

theorem sameField_symm {v w : Option Value} (h : sameField v w = true) :
    sameField w v = true := by
  match v, w with
  | none, none => rfl
  | some v, some w => exact Value.same_symm h

theorem sameField_trans {u v w : Option Value} (h : sameField u v = true)
    (h' : sameField v w = true) : sameField u w = true := by
  match u, v, w with
  | none, none, none => rfl
  | some u, some v, some w => exact Value.same_trans h h'

theorem sameField_none_right {v : Option Value} : sameField v none = true ↔ v = none := by
  cases v <;> simp [sameField]

/-- a field as a client shows it: `null` is as good as missing -/
def visibleField (v : Option Value) : Option Value := v.filter fun v => !v.isNull

theorem sameField_visibleField {v w : Option Value} (h : sameField v w = true) :
    sameField (visibleField v) (visibleField w) = true := by
  match v, w with
  | none, none => rfl
  | some v, some w =>
    have hn : v.isNull = w.isNull := Value.isNull_congr h
    cases hw : w.isNull with
    | true => simp [visibleField, Option.filter, hn, hw, sameField]
    | false => simpa [visibleField, Option.filter, hn, hw] using h

def SameFields (a b : Fields) : Prop :=
  ∀ name, sameField (a.get? name) (b.get? name) = true

theorem SameFields.refl (a : Fields) : SameFields a a := fun _ => sameField_refl _

theorem SameFields.symm {a b : Fields} (h : SameFields a b) : SameFields b a :=
  fun name => sameField_symm (h name)

theorem SameFields.trans {a b c : Fields} (h : SameFields a b) (h' : SameFields b c) :
    SameFields a c :=
  fun name => sameField_trans (h name) (h' name)

/-- the fields that are not `null` -/
def visible (fields : Fields) : Fields := fields.filter fun _ v => !v.isNull

theorem get?_visible (fields : Fields) (name : String) :
    (visible fields).get? name = visibleField (fields.get? name) :=
  Dict.get?_filter ..

theorem SameFields.visible {a b : Fields} (h : SameFields a b) :
    SameFields (visible a) (visible b) := by
  intro name
  rw [get?_visible, get?_visible]
  exact sameField_visibleField (h name)

/-! ## The invariant -/

/-- the bag was never committed -/
structure Unsent (b : FieldBag) : Prop where
  sent : b.sent = ∅
  everSent : b.everSent = false
  version : b.version = 0

structure Tracked (b : FieldBag) : Prop where
  unsent : b.everSent = false → b.sent = ∅
  touched : b.everSent = true → ∀ name, b.touched.get? name = none →
    sameField (b.fields.get? name) (b.sent.get? name) = true

theorem Unsent.tracked {b : FieldBag} (h : b.Unsent) : b.Tracked where
  unsent := fun _ => h.sent
  touched := fun hs => by
    rw [h.everSent] at hs
    cases hs

theorem unsent_ofFields (fields : Fields) : (ofFields fields).Unsent := ⟨rfl, rfl, rfl⟩

@[simp] theorem sent_edit (b : FieldBag) (e : Edit) : (b.edit e).sent = b.sent := by
  cases e with
  | set name value => rfl
  | remove name =>
    show (b.remove name).sent = b.sent
    unfold remove
    split <;> rfl

@[simp] theorem everSent_edit (b : FieldBag) (e : Edit) : (b.edit e).everSent = b.everSent := by
  cases e with
  | set name value => rfl
  | remove name =>
    show (b.remove name).everSent = b.everSent
    unfold remove
    split <;> rfl

@[simp] theorem version_edit (b : FieldBag) (e : Edit) : (b.edit e).version = b.version := by
  cases e with
  | set name value => rfl
  | remove name =>
    show (b.remove name).version = b.version
    unfold remove
    split <;> rfl

theorem Tracked.set {b : FieldBag} (h : b.Tracked) (name : String) (value : Value) :
    (b.set name value).Tracked where
  unsent := h.unsent
  touched := by
    intro hs j hj
    by_cases hk : j = name
    · subst hk
      simp [FieldBag.set] at hj
    · have ht : b.touched.get? j = none := by
        rwa [FieldBag.set, Dict.get?_insert_of_ne hk] at hj
      show sameField ((b.fields.insert name value).get? j) (b.sent.get? j) = true
      rw [Dict.get?_insert_of_ne hk]
      exact h.touched hs j ht

theorem Tracked.remove {b : FieldBag} (h : b.Tracked) (name : String) :
    (b.remove name).Tracked := by
  unfold FieldBag.remove
  split
  · refine ⟨h.unsent, ?_⟩
    intro hs j hj
    by_cases hk : j = name
    · subst hk
      simp at hj
    · have ht : b.touched.get? j = none := by
        rwa [Dict.get?_insert_of_ne hk] at hj
      show sameField ((b.fields.erase name).get? j) (b.sent.get? j) = true
      rw [Dict.get?_erase_of_ne hk]
      exact h.touched hs j ht
  · exact h

theorem Tracked.edit {b : FieldBag} (h : b.Tracked) (e : Edit) : (b.edit e).Tracked := by
  cases e with
  | set name value => exact h.set name value
  | remove name => exact h.remove name

theorem tracked_commit (b : FieldBag) : b.commit.Tracked where
  unsent := fun h => by cases h
  touched := fun _ name _ => sameField_refl (b.fields.get? name)

theorem tracked_forgetSent (b : FieldBag) : b.forgetSent.Tracked where
  unsent := fun _ => rfl
  touched := fun h => by cases h

/-! ### Any number of edits -/

theorem sent_edits (es : List Edit) (b : FieldBag) : (es.foldl edit b).sent = b.sent := by
  induction es generalizing b with
  | nil => rfl
  | cons e es ih => rw [List.foldl_cons, ih, sent_edit]

theorem everSent_edits (es : List Edit) (b : FieldBag) :
    (es.foldl edit b).everSent = b.everSent := by
  induction es generalizing b with
  | nil => rfl
  | cons e es ih => rw [List.foldl_cons, ih, everSent_edit]

theorem version_edits (es : List Edit) (b : FieldBag) : (es.foldl edit b).version = b.version := by
  induction es generalizing b with
  | nil => rfl
  | cons e es ih => rw [List.foldl_cons, ih, version_edit]

theorem Tracked.edits {b : FieldBag} (h : b.Tracked) (es : List Edit) :
    (es.foldl FieldBag.edit b).Tracked := by
  induction es generalizing b with
  | nil => exact h
  | cons e es ih => exact ih (h.edit e)

/-! ### Reading a field back -/

@[simp] theorem get?_set_self (b : FieldBag) (name : String) (value : Value) :
    (b.set name value).get? name = some value := Dict.get?_insert_self ..

theorem get?_set_of_ne {name other : String} (h : other ≠ name) (b : FieldBag) (value : Value) :
    (b.set name value).get? other = b.get? other := Dict.get?_insert_of_ne h ..

@[simp] theorem get?_remove_self (b : FieldBag) (name : String) :
    (b.remove name).get? name = none := by
  unfold remove
  split
  · exact Dict.get?_erase_self ..
  · next h =>
    rw [Dict.contains, Bool.not_eq_true, Option.isSome_eq_false_iff, Option.isNone_iff_eq_none] at h
    exact h

/-! ## What sending tells -/

theorem get?_changed (b : FieldBag) (name : String) :
    b.changed.get? name = (b.touched.get? name).bind fun _ =>
      if sameField (b.fields.get? name) (b.sent.get? name) then none
      else some ((b.fields.get? name).getD .null) :=
  Dict.get?_filterMap ..

/-- what was sent before need not be sent again -/
theorem pendingDiff_eq_none {b : FieldBag} (hs : b.everSent = true)
    (h : SameFields b.fields b.sent) : b.pendingDiff = none := by
  have hempty : b.changed.isEmpty = true := by
    refine Dict.isEmpty_iff.2 fun name => ?_
    rw [get?_changed]
    cases b.touched.get? name with
    | none => rfl
    | some u => exact if_pos (h name)
  rw [pendingDiff, if_pos hs, if_pos hempty]

/-- nothing to send: the fields are what was sent -/
theorem Tracked.sameFields_of_pendingDiff_none {b : FieldBag} (h : b.Tracked)
    (hd : b.pendingDiff = none) : SameFields b.sent b.fields := by
  unfold pendingDiff at hd
  split at hd
  · next hs =>
    split at hd
    · next he =>
      intro name
      have hc := Dict.isEmpty_iff.1 he name
      cases ht : b.touched.get? name with
      | none => exact sameField_symm (h.touched hs name ht)
      | some u =>
        rw [get?_changed, ht, Option.bind_some] at hc
        split at hc
        · next hsame => exact sameField_symm hsame
        · cases hc
    · cases hd
  · cases hd

theorem get?_merge (fields : Fields) (diff : Diff) (name : String) :
    (Replica.merge fields diff).get? name =
      ((diff.get? name).map fun v => visibleField (some v)).getD (fields.get? name) := by
  rw [← Dict.get?_foldl_put (fun v => visibleField (some v))]
  congr 1
  unfold Replica.merge
  congr 1
  funext fs e
  cases he : e.2.isNull <;> simp [visibleField, Option.filter, he, Dict.put]

theorem visibleField_getD_null (v : Option Value) :
    visibleField (some (v.getD .null)) = visibleField v := by
  cases v <;> rfl

/-- a copy of what was sent becomes a copy of the fields once the difference is merged in -/
theorem Tracked.merge_pendingDiff {b : FieldBag} (h : b.Tracked) {diff : Diff} {copy : Fields}
    (hd : b.pendingDiff = some diff) (hc : SameFields copy (FieldBag.visible b.sent)) :
    SameFields (Replica.merge copy diff) (FieldBag.visible b.fields) := by
  intro name
  have hname := hc name
  rw [get?_visible] at hname ⊢
  rw [get?_merge]
  unfold pendingDiff at hd
  split at hd
  · next hs =>
    -- a difference: only touched fields that differ are in it
    split at hd
    · cases hd
    · obtain rfl := Option.some.inj hd
      rw [get?_changed]
      cases ht : b.touched.get? name with
      | none =>
        exact sameField_trans hname (sameField_visibleField (sameField_symm (h.touched hs name ht)))
      | some u =>
        rw [Option.bind_some]
        split
        · next hsame =>
          exact sameField_trans hname (sameField_visibleField (sameField_symm hsame))
        · rw [Option.map_some, Option.getD_some, visibleField_getD_null]
          exact sameField_refl _
  · next hs =>
    -- a full send: the copy was empty
    obtain rfl := Option.some.inj hd
    rw [h.unsent (Bool.eq_false_iff.2 hs)] at hname
    have hnone : copy.get? name = none := sameField_none_right.1 hname
    rw [hnone]
    cases b.fields.get? name <;> exact sameField_refl _

end FieldBag

end UiSync
