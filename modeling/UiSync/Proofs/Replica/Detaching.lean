import UiSync.Proofs.Lists
import UiSync.Proofs.Replica.Mirrors

/-!
# Detaching from any replica

A replica takes every change that finds the components it mentions (`Replica.Built`).  A component
that is attached again leaves stale child entries behind, so what is linked is no tree.  But child
entries of components that are there lead from one that was attached earlier to one that was
attached later (`Replica.Dated`), and so they never lead back (`Replica.Built.acyclic`).

`Sweep.Turn` is one turn of the loop that removes what is below a detached component.  With every
turn the stack and the child entries that are left, counted together, become one less
(`Sweep.Turn.left`), so the loop comes to an end whatever the entries are.  What it takes away is
what is reached over child entries, and nothing else changes but the child list of the recorded
parent (`Replica.detaching`).
-/

namespace UiSync

open Relation

/-! ## The loop of the removal -/

namespace Replica

def linksIn (components : Dict ComponentId ReplicaNode) : Nat :=
  (components.entries.map fun e => e.2.children.length).sum

def links (r : Replica) : Nat := linksIn r.components

variable {components : Dict ComponentId ReplicaNode} {id : ComponentId} {n : ReplicaNode}

theorem linksIn_erase (h : components.get? id = some n) :
    linksIn components = n.children.length + linksIn (components.erase id) := by
  have hperm := Dict.perm_cons_erase h
  rw [linksIn, (hperm.map _).sum_eq, List.map_cons, List.sum_cons, linksIn]

/-- taking a child out of a list makes the entries no more -/
theorem linksIn_dropChild_le (parent : Option ComponentId) (id : ComponentId) :
    linksIn (dropChild components parent id) ≤ linksIn components := by
  cases parent with
  | none => exact Nat.le_refl _
  | some p =>
    have hdropped : (dropChild components (some p) id).get? p =
        (components.get? p).map (·.without id) := get?_dropChild_parent p id
    cases hp : components.get? p with
    | none =>
      show linksIn (components.modify p _) ≤ _
      rw [Dict.modify, hp]
    | some n =>
      rw [hp, Option.map_some] at hdropped
      have herase : (dropChild components (some p) id).erase p = components.erase p := by
        refine Dict.ext_get? fun x => ?_
        rcases eq_or_ne x p with rfl | hne
        · rw [Dict.get?_erase_self, Dict.get?_erase_self]
        · rw [Dict.get?_erase_of_ne hne, Dict.get?_erase_of_ne hne,
            get?_dropChild_of_ne fun he => hne (Option.some.inj he).symm]
      rw [linksIn_erase hdropped, linksIn_erase hp, herase]
      exact Nat.add_le_add_right (List.length_filter_le ..) _

end Replica

/-- a removal on its way: the components that are left, and the stack of those to be removed -/
structure Sweep where
  components : Dict ComponentId ReplicaNode
  stack : List ComponentId

namespace Sweep

open Replica

/-- the component on top of the stack is removed, if it is still there, and its children take its
place -/
inductive Turn : Sweep → Sweep → Prop
  | missing {components : Dict ComponentId ReplicaNode} {id : ComponentId}
      (rest : List ComponentId) : components.get? id = none →
        Turn ⟨components, id :: rest⟩ ⟨components, rest⟩
  | removed {components : Dict ComponentId ReplicaNode} {id : ComponentId} {n : ReplicaNode}
      (rest : List ComponentId) : components.get? id = some n →
        Turn ⟨components, id :: rest⟩ ⟨components.erase id, n.children.reverse ++ rest⟩

/-- what bounds the turns that are left -/
def left (w : Sweep) : Nat := w.stack.length + linksIn w.components

def final (w : Sweep) : Sweep := ⟨removeAll w.components w.stack, []⟩

variable {w w' : Sweep}

theorem Turn.left (h : Turn w w') : w.left = w'.left + 1 := by
  cases h with
  | @missing components id rest _ =>
    show rest.length + 1 + linksIn components = rest.length + linksIn components + 1
    omega
  | @removed components id n rest hid =>
    show rest.length + 1 + linksIn components =
      (n.children.reverse ++ rest).length + linksIn (components.erase id) + 1
    rw [linksIn_erase hid, List.length_append, List.length_reverse]
    omega

theorem Turn.final (h : Turn w w') : w'.final = w.final := by
  cases h with
  | missing rest hid => exact congrArg (Sweep.mk · []) (removeAll_cons_of_none hid rest).symm
  | removed rest hid => exact congrArg (Sweep.mk · []) (removeAll_cons_of_some hid rest).symm

/-- the loop goes on as long as the stack holds something -/
theorem exists_turn (h : w.stack ≠ []) : ∃ w', Turn w w' := by
  obtain ⟨components, _ | ⟨id, rest⟩⟩ := w
  · exact absurd rfl h
  · cases hid : components.get? id with
    | none => exact ⟨_, .missing rest hid⟩
    | some n => exact ⟨_, .removed rest hid⟩

theorem turns_final (w : Sweep) : ReflTransGen Turn w w.final := by
  induction hn : w.left using Nat.strong_induction_on generalizing w with
  | _ n ih =>
    subst hn
    by_cases hstack : w.stack = []
    · obtain ⟨components, stack⟩ := w
      obtain rfl : stack = [] := hstack
      rw [final, removeAll]
    · obtain ⟨w', hturn⟩ := exists_turn hstack
      have hrest := ih w'.left (by rw [hturn.left]; omega) w' rfl
      rw [hturn.final] at hrest
      exact .head hturn hrest

/-- wherever the loop has got to, it goes on to its end -/
theorem ends (h : ReflTransGen Turn w w') : ReflTransGen Turn w' w.final := by
  have hfinal : w'.final = w.final := by
    induction h with
    | refl => rfl
    | tail _ hturn ih => rw [hturn.final, ih]
  rw [← hfinal]
  exact turns_final w'

theorem length_turns_le {turns : List Sweep} (h : (w :: turns).IsChain Turn) :
    turns.length ≤ w.left := by
  induction turns generalizing w with
  | nil => exact Nat.zero_le _
  | cons w' turns ih =>
    obtain ⟨hturn, hrest⟩ := List.isChain_cons_cons.1 h
    rw [hturn.left, List.length_cons]
    exact Nat.succ_le_succ (ih hrest)

end Sweep

/-! ## Replicas that changes have built -/

namespace Replica

/-- what changes make of a replica that all find the components they mention, whoever sent them -/
inductive Built : Replica → Prop
  | empty : Built ∅
  | tree {r r' : Replica} (c : TreeChange) : Built r → r.applyTreeChange c = .ok r' → Built r'
  | fields {r r' : Replica} (c : FieldChange) : Built r → r.applyFieldChange c = .ok r' → Built r'

namespace Built

variable {r r' : Replica}

theorem applyTreeChanges (h : r.Built) {changes : List TreeChange}
    (hc : changes.foldlM applyTreeChange r = .ok r') : r'.Built :=
  foldlM_keeps (fun _ c _ hr hc => hr.tree c hc) h hc

theorem applyFieldChanges (h : r.Built) {changes : List FieldChange}
    (hc : changes.foldlM applyFieldChange r = .ok r') : r'.Built :=
  foldlM_keeps (fun _ c _ hr hc => hr.fields c hc) h hc

theorem applyMessage (h : r.Built) {m : ServerMessage} (hm : r.applyMessage m = .ok r') :
    r'.Built := by
  unfold Replica.applyMessage at hm
  cases h₁ : m.hierarchy.foldlM applyTreeChange r with
  | error e =>
    rw [h₁] at hm
    cases hm
  | ok r₁ =>
    rw [h₁] at hm
    exact (h.applyTreeChanges h₁).applyFieldChanges hm

end Built

/-- every component has a date before `now`, and its children that are there have later ones -/
structure Dated (r : Replica) (date : ComponentId → Nat) (now : Nat) : Prop where
  past : ∀ id n, r.components.get? id = some n → date id < now
  younger : ∀ id c, r.Child id c → date id < date c

variable {r r' : Replica} {date : ComponentId → Nat} {now : Nat} {id : ComponentId}

/-- a replica whose components and child entries are among those of another one -/
def Within (r' r : Replica) : Prop := ∀ x m', r'.components.get? x = some m' →
  ∃ m, r.components.get? x = some m ∧ m'.children ⊆ m.children

theorem Dated.within (h : r.Dated date now) (hw : r'.Within r) : r'.Dated date now := by
  constructor
  · intro x m' hm'
    obtain ⟨m, hm, -⟩ := hw x m' hm'
    exact h.past x m hm
  · rintro x c ⟨n', m', hn', hc, hm'⟩
    obtain ⟨n, hn, hsub⟩ := hw x n' hn'
    obtain ⟨m, hm, -⟩ := hw c m' hm'
    exact h.younger x c ⟨n, m, hn, hsub hc, hm⟩

theorem dated_empty : (∅ : Replica).Dated (fun _ => 0) 0 where
  past _ _ h := by cases h
  younger _ _ h := by
    obtain ⟨_, _, h, -⟩ := h
    cases h

/-- the attached component is blank, and the others have it as a child at most in addition -/
structure Placed (r r' : Replica) (id : ComponentId) : Prop where
  placed : ∃ n, r'.components.get? id = some n ∧ n.children = []
  others : ∀ x m', x ≠ id → r'.components.get? x = some m' →
    ∃ m, r.components.get? x = some m ∧ ∀ c ∈ m'.children, c = id ∨ c ∈ m.children

theorem placed_of_attach {parent : Option ComponentId} {kind : String}
    (h : r.attach id parent kind = .ok r') : Placed r r' id := by
  cases parent with
  | none =>
    cases h
    refine ⟨⟨_, Dict.get?_insert_self .., rfl⟩, fun x m' hne hm' => ?_⟩
    rw [Dict.get?_insert_of_ne hne] at hm'
    exact ⟨m', hm', fun c hc => .inr hc⟩
  | some p =>
    cases hp : r.components.get? p with
    | none =>
      rw [attach, hp] at h
      cases h
    | some n =>
      rw [attach_below hp] at h
      cases h
      refine ⟨⟨_, get?_withChild_new, rfl⟩, fun x m' hne hm' => ?_⟩
      rcases eq_or_ne x p with rfl | hnp
      · rw [get?_withChild_parent hne] at hm'
        cases hm'
        refine ⟨n, hp, fun c hc => ?_⟩
        exact (List.mem_append.1 hc).symm.imp_left List.mem_singleton.1
      · rw [get?_withChild_of_ne hne hnp] at hm'
        exact ⟨m', hm', fun c hc => .inr hc⟩

/-- the attached component gets the latest date -/
theorem Dated.placed (h : r.Dated date now) (hp : Placed r r' id) :
    r'.Dated (Function.update date id now) (now + 1) := by
  constructor
  · intro x m' hm'
    rcases eq_or_ne x id with rfl | hne
    · rw [Function.update_self]
      exact Nat.lt_succ_self now
    · obtain ⟨m, hm, -⟩ := hp.others x m' hne hm'
      rw [Function.update_of_ne hne]
      exact Nat.lt_succ_of_lt (h.past x m hm)
  · rintro x c ⟨n', m', hn', hc, hm'⟩
    have hx : x ≠ id := by
      rintro rfl
      obtain ⟨n, hn, hblank⟩ := hp.placed
      rw [hn] at hn'
      cases hn'
      rw [hblank] at hc
      cases hc
    obtain ⟨n, hn, hsub⟩ := hp.others x n' hx hn'
    rw [Function.update_of_ne hx]
    rcases eq_or_ne c id with rfl | hne
    · rw [Function.update_self]
      exact h.past x n hn
    · obtain ⟨m, hm, -⟩ := hp.others c m' hne hm'
      rw [Function.update_of_ne hne]
      exact h.younger x c ⟨n, m, hn, (hsub c hc).resolve_left hne, hm⟩

/-! ## What detaching does -/

/-- detaching `id`, whose copy is `n`, comes to an end with `r'` -/
structure Detaches (r : Replica) (id : ComponentId) (n : ReplicaNode) (r' : Replica) : Prop where
  answer : r.applyTreeChange (.detached id) = .ok r'
  /-- the loop takes one turn and at most one more for each child entry there is -/
  bounded : ∀ turns : List Sweep,
    (⟨dropChild r.components n.parent id, [id]⟩ :: turns).IsChain Sweep.Turn →
      turns.length ≤ r.links + 1
  /-- wherever it has got to, it goes on to its end -/
  ends : ∀ w, ReflTransGen Sweep.Turn ⟨dropChild r.components n.parent id, [id]⟩ w →
    ReflTransGen Sweep.Turn w ⟨r'.components, []⟩
  root : r'.root = r.root
  gone : ∀ x, r.Below id x → r'.components.get? x = none
  /-- the recorded parent, if it is left -/
  unlinked : ∀ p, ¬ r.Below id p → n.parent = some p →
    r'.components.get? p = (r.components.get? p).map (·.without id)
  kept : ∀ x, ¬ r.Below id x → n.parent ≠ some x →
    r'.components.get? x = r.components.get? x

theorem exists_detaches {n : ReplicaNode} (hn : r.components.get? id = some n) :
    ∃ r', r.Detaches id n r' := by
  have hreached {x : ComponentId} := reached_dropChild_iff (x := x) hn n.parent
  refine ⟨_, detach_known hn, fun turns hturns => ?_, fun w hw => Sweep.ends hw, rfl,
    fun x hx => ?_, fun p hp hparent => ?_, fun x hx hparent => ?_⟩
  · have hle := Sweep.length_turns_le hturns
    have hlinks : linksIn (dropChild r.components n.parent id) ≤ r.links :=
      linksIn_dropChild_le n.parent id
    show turns.length ≤ _
    have hleft : (Sweep.mk (dropChild r.components n.parent id) [id]).left =
        1 + linksIn (dropChild r.components n.parent id) := rfl
    omega
  · exact get?_removeAll_of_reached (hreached.2 hx)
  · show (removeAll _ _).get? p = _
    rw [get?_removeAll_of_not_reached (mt hreached.1 hp), hparent, get?_dropChild_parent]
  · show (removeAll _ _).get? x = _
    rw [get?_removeAll_of_not_reached (mt hreached.1 hx), get?_dropChild_of_ne hparent]

theorem Detaches.within {n : ReplicaNode} (h : r.Detaches id n r') : r'.Within r := by
  intro x m' hm'
  have hx : ¬ r.Below id x := by
    intro hx
    rw [h.gone x hx] at hm'
    cases hm'
  by_cases hparent : n.parent = some x
  · rw [h.unlinked x hx hparent] at hm'
    obtain ⟨m, hm, rfl⟩ := Option.map_eq_some_iff.1 hm'
    exact ⟨m, hm, fun c hc => (List.mem_filter.1 hc).1⟩
  · rw [h.kept x hx hparent] at hm'
    exact ⟨m', hm', fun c hc => hc⟩

theorem within_of_detach (h : r.detach id = .ok r') : r'.Within r := by
  cases hn : r.components.get? id with
  | none =>
    rw [detach, hn] at h
    cases h
  | some n =>
    obtain ⟨r₁, h₁⟩ := exists_detaches hn
    obtain rfl : r₁ = r' := Except.ok.inj (h₁.answer.symm.trans h)
    exact h₁.within

theorem within_of_applyFieldChange {c : FieldChange} (h : r.applyFieldChange c = .ok r') :
    r'.Within r := by
  cases hn : r.components.get? c.component with
  | none =>
    rw [applyFieldChange, hn] at h
    cases h
  | some n =>
    rw [applyFieldChange, hn] at h
    cases h
    intro x m' hm'
    rcases Dict.get?_insert_eq_some.1 hm' with ⟨rfl, rfl⟩ | ⟨-, hm'⟩
    · exact ⟨n, hn, fun c hc => hc⟩
    · exact ⟨m', hm', fun c hc => hc⟩

/-! ## Any replica -/

namespace Built

theorem dated (h : r.Built) : ∃ date now, r.Dated date now := by
  induction h with
  | empty => exact ⟨_, _, dated_empty⟩
  | tree c _ hc ih =>
    obtain ⟨date, now, hdated⟩ := ih
    cases c with
    | attached id parent kind => exact ⟨_, _, hdated.placed (placed_of_attach hc)⟩
    | detached id => exact ⟨_, _, hdated.within (within_of_detach hc)⟩
  | fields c _ hc ih =>
    obtain ⟨date, now, hdated⟩ := ih
    exact ⟨_, _, hdated.within (within_of_applyFieldChange hc)⟩

theorem acyclic (h : r.Built) (id : ComponentId) : ¬ TransGen r.Child id id := by
  obtain ⟨date, now, hdated⟩ := h.dated
  have hlater {x : ComponentId} (hx : TransGen r.Child id x) : date id < date x := by
    induction hx with
    | single hchild => exact hdated.younger _ _ hchild
    | tail _ hchild ih => exact ih.trans (hdated.younger _ _ hchild)
  exact fun hcycle => Nat.lt_irrefl _ (hlater hcycle)

end Built

/-- However a replica was built, child lists never lead back, and detaching a component that is there
comes to an end, takes away what is reached from it over child lists, and changes nothing else but
the child list of its recorded parent. -/
theorem detaching (h : r.Built) : (∀ id, ¬ TransGen r.Child id id) ∧
    ∀ id n, r.components.get? id = some n → ∃ r', r.Detaches id n r' :=
  ⟨h.acyclic, fun _ _ hn => exists_detaches hn⟩

/-- one component is attached again elsewhere, another one as a second root and then below itself -/
def wandering : List TreeChange := [
  .attached ⟨1⟩ none "Page", .attached ⟨2⟩ (some ⟨1⟩) "Box", .attached ⟨3⟩ (some ⟨2⟩) "Box",
  .attached ⟨4⟩ (some ⟨3⟩) "Note", .attached ⟨3⟩ (some ⟨1⟩) "Box", .attached ⟨5⟩ none "Page",
  .attached ⟨5⟩ (some ⟨5⟩) "Page", .attached ⟨6⟩ (some ⟨2⟩) "Note"]

def wandered : Replica := (wandering.foldlM applyTreeChange ∅).toOption.getD ∅

theorem built_wandered : wandered.Built :=
  have hchanges : wandering.foldlM applyTreeChange ∅ = .ok wandered := by cbv
  Built.empty.applyTreeChanges hchanges

/-- the third component goes with its former parent, and its new parent still lists it -/
theorem detaching_wandered : wandered.Built ∧ (∀ id, ¬ TransGen wandered.Child id id) ∧
    ∃ n r, wandered.components.get? ⟨2⟩ = some n ∧ wandered.Detaches ⟨2⟩ n r ∧
      r.components.keys = [⟨1⟩, ⟨4⟩, ⟨5⟩] ∧ r.children ⟨1⟩ = [⟨3⟩] := by
  obtain ⟨hacyclic, hdetaches⟩ := detaching built_wandered
  have hn : wandered.components.get? ⟨2⟩ = some ⟨"Box", some ⟨1⟩, [⟨3⟩, ⟨6⟩], ∅, 0⟩ := by cbv
  obtain ⟨r, hr⟩ := hdetaches ⟨2⟩ _ hn
  have hleft : ((wandered.applyTreeChange (.detached ⟨2⟩)).toOption.map fun r =>
      (r.components.keys, r.children ⟨1⟩)) = some ([⟨1⟩, ⟨4⟩, ⟨5⟩], [⟨3⟩]) := by cbv
  rw [hr.answer] at hleft
  obtain ⟨hkeys, hchildren⟩ := Prod.mk.inj (Option.some.inj hleft)
  exact ⟨built_wandered, hacyclic, _, r, hn, hr, hkeys, hchildren⟩

end Replica

end UiSync
