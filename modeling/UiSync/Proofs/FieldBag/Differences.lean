import UiSync.Proofs.Session.Sends

/-!
# Differences over any run

A bag is written to, committed, and asked to send everything anew, in any order
(`FieldBag.performAll`).  After a commit its pending difference holds the fields that differ from
those of the commit and no others, however often they were written in between; before the first
commit, and after a request for everything, it holds the whole bag (`FieldBag.exact_performAll`).

A copy that merges in what every commit sends (`FieldBag.follow`) shows the fields that are not
`null` after every commit.
-/

namespace UiSync

open Json (Value)

namespace FieldBag

/-! ## Runs -/

inductive Step where
  | edit (e : Edit)
  | commit
  | forgetSent

def perform (b : FieldBag) : Step → FieldBag
  | .edit e => b.edit e
  | .commit => b.commit
  | .forgetSent => b.forgetSent

def performAll (b : FieldBag) (steps : List Step) : FieldBag := steps.foldl perform b

theorem performAll_append (b : FieldBag) (steps steps' : List Step) :
    b.performAll (steps ++ steps') = (b.performAll steps).performAll steps' := List.foldl_append

variable {b : FieldBag} {steps : List Step}

theorem Tracked.perform (h : b.Tracked) (step : Step) : (b.perform step).Tracked := by
  cases step with
  | edit e => exact h.edit e
  | commit => exact tracked_commit b
  | forgetSent => exact tracked_forgetSent b

theorem Tracked.performAll (h : b.Tracked) (steps : List Step) : (b.performAll steps).Tracked := by
  induction steps generalizing b with
  | nil => exact h
  | cons step steps ih => exact ih (h.perform step)

/-! ## The last commit -/

theorem Remembers.edit {last : Option Fields} (h : b.Remembers last) (e : Edit) :
    (b.edit e).Remembers last := by
  cases last with
  | none => exact (everSent_edit b e).trans h
  | some last => exact ⟨(everSent_edit b e).trans h.1, sent_edit b e ▸ h.2⟩

/-- edits do not touch what a bag remembers -/
theorem Remembers.performAll {last : Option Fields} (h : b.Remembers last)
    (hc : .commit ∉ steps) (hf : .forgetSent ∉ steps) : (b.performAll steps).Remembers last := by
  induction steps generalizing b with
  | nil => exact h
  | cons step steps ih =>
    rw [List.mem_cons, not_or] at hc hf
    cases step with
    | edit e => exact ih (h.edit e) hc.2 hf.2
    | commit => exact absurd rfl hc.1
    | forgetSent => exact absurd rfl hf.1

/-- the bag counts as unsent when everything was asked for after every commit -/
theorem everSent_performAll (hb : b.everSent = false)
    (h : ∀ before after, steps = before ++ .commit :: after → .forgetSent ∈ after) :
    (b.performAll steps).everSent = false := by
  induction steps using List.reverseRecOn with
  | nil => exact hb
  | append_singleton steps step ih =>
    rw [performAll_append]
    cases step with
    | edit e =>
      refine (everSent_edit _ e).trans (ih fun before after he => ?_)
      have hmem := h before (after ++ [.edit e]) (by rw [he]; simp)
      rw [List.mem_append, List.mem_singleton] at hmem
      exact hmem.resolve_right fun hne => by cases hne
    | commit =>
      -- nothing stands behind this commit
      exact absurd (h steps [] rfl) List.not_mem_nil
    | forgetSent => rfl

/-- nothing has to be sent exactly when the fields are those of the last send -/
theorem Tracked.pendingDiff_eq_none_iff {last : Fields} (h : b.Tracked)
    (hl : b.Remembers (some last)) : b.pendingDiff = none ↔ SameFields b.fields last := by
  constructor
  · intro hd
    exact (h.sameFields_of_pendingDiff_none hd).symm.trans hl.2
  · intro hsame
    cases hd : b.pendingDiff with
    | none => rfl
    | some diff => exact absurd hsame ((h.pendingDiff_eq_some_iff hl diff).1 hd).1

/-! ## A copy that merges what is sent -/

/-- a copy once a commit of the bag has reached it; a full send empties it first -/
def received (b : FieldBag) (copy : Fields) : Fields :=
  match b.pendingDiff with
  | none => copy
  | some diff => Replica.merge (if b.everSent then copy else ∅) diff

def follow (s : FieldBag × Fields) (step : Step) : FieldBag × Fields :=
  match step with
  | .commit => (s.1.commit, s.1.received s.2)
  | step => (s.1.perform step, s.2)

/-- the copy shows what was last sent -/
def Shown (s : FieldBag × Fields) : Prop :=
  s.1.everSent = true → SameFields s.2 (visible s.1.sent)

theorem fst_follow (s : FieldBag × Fields) (step : Step) : (follow s step).1 = s.1.perform step := by
  cases step <;> rfl

theorem fst_foldl_follow (steps : List Step) (s : FieldBag × Fields) :
    (steps.foldl follow s).1 = s.1.performAll steps := by
  induction steps generalizing s with
  | nil => rfl
  | cons step steps ih =>
    rw [List.foldl_cons, ih, fst_follow]
    rfl

theorem Tracked.sameFields_received {copy : Fields} (h : b.Tracked) (hs : Shown (b, copy)) :
    SameFields (b.received copy) (visible b.fields) := by
  unfold received
  cases hd : b.pendingDiff with
  | none =>
    have hever : b.everSent = true := by
      by_contra hever
      rw [pendingDiff, if_neg hever] at hd
      cases hd
    exact (hs hever).trans (h.sameFields_of_pendingDiff_none hd).visible
  | some diff =>
    refine h.merge_pendingDiff hd ?_
    by_cases hever : b.everSent = true
    · rw [if_pos hever]
      exact hs hever
    · rw [if_neg hever, h.unsent (Bool.eq_false_iff.2 hever)]
      exact .refl _

theorem Shown.follow {s : FieldBag × Fields} (h : Shown s) (ht : s.1.Tracked) (step : Step) :
    Shown (follow s step) := by
  cases step with
  | edit e =>
    intro hever
    rw [fst_follow] at hever ⊢
    show SameFields s.2 (visible (s.1.edit e).sent)
    rw [sent_edit]
    exact h ((everSent_edit s.1 e).symm.trans hever)
  | commit => exact fun _ => ht.sameFields_received h
  | forgetSent => exact fun hever => by cases hever

theorem Shown.foldl_follow {s : FieldBag × Fields} (h : Shown s) (ht : s.1.Tracked)
    (steps : List Step) : Shown (steps.foldl FieldBag.follow s) := by
  induction steps generalizing s with
  | nil => exact h
  | cons step steps ih =>
    refine ih (h.follow ht step) ?_
    rw [fst_follow]
    exact ht.perform step

/-! ## Whole runs -/

/-- what a bag has to send after any steps, and what a copy shows that received every commit -/
structure Exact (fields : Fields) (steps : List Step) : Prop where
  /-- `before` leads up to the last commit, and nobody asked for everything since then -/
  since : ∀ before after, steps = before ++ .commit :: after →
    .commit ∉ after → .forgetSent ∉ after →
      let now := (ofFields fields).performAll steps
      let last := (ofFields fields).performAll before
      (now.pendingDiff = none ↔ SameFields now.fields last.fields) ∧
        ∀ diff, now.pendingDiff = some diff →
          ∀ name, diff.get? name = difference (now.get? name) (last.get? name)
  whole : (∀ before after, steps = before ++ .commit :: after → .forgetSent ∈ after) →
    ((ofFields fields).performAll steps).pendingDiff =
      some ((ofFields fields).performAll steps).fields
  copied : ∀ copy, SameFields ((steps ++ [Step.commit]).foldl follow (ofFields fields, copy)).2
    (visible ((ofFields fields).performAll (steps ++ [Step.commit])).fields)

/-- A bag sends the fields that differ from its last send and nothing else, and all of them when
there is none. -/
theorem exact_performAll (fields : Fields) (steps : List Step) : Exact fields steps := by
  have hnew : (ofFields fields).Tracked := (unsent_ofFields fields).tracked
  have htracked := hnew.performAll steps
  refine ⟨fun before after he hc hf => ?_, fun h => ?_, fun copy => ?_⟩
  · have hlast : ((ofFields fields).performAll steps).Remembers
        (some ((ofFields fields).performAll before).fields) := by
      rw [he, performAll_append]
      exact (remembers_commit _).performAll hc hf
    refine ⟨htracked.pendingDiff_eq_none_iff hlast, fun diff hd => ?_⟩
    exact ((htracked.pendingDiff_eq_some_iff hlast diff).1 hd).2
  · have hunsent : ((ofFields fields).performAll steps).Remembers none :=
      everSent_performAll rfl h
    exact (htracked.pendingDiff_eq_some_iff hunsent _).2 rfl
  · have hshown : Shown (ofFields fields, copy) := fun hever => by cases hever
    have hbefore := hshown.foldl_follow hnew steps
    have hbag := fst_foldl_follow steps (ofFields fields, copy)
    rw [List.foldl_append, performAll_append, ← hbag]
    refine Tracked.sameFields_received ?_ hbefore
    rw [hbag]
    exact htracked

end FieldBag

end UiSync
