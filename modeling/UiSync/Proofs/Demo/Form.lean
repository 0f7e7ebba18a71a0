import UiSync.Proofs.Demo.Regular
import UiSync.Proofs.Session.Chains
import UiSync.Proofs.Session.Skipping
import UiSync.Proofs.Session.Tables
import UiSync.Proofs.Session.Upkeep

/-!
# What a form keeps

A form has handlers at three components only (`Demo.Attends`), and its hooks mark nothing but the
follower (`Demo.Plain`); whatever else a session is used for, its handlers mark what they edit, so
that a component that is clean was sent as it is.  `Demo.Formed` puts these facts together.

A message finds a form in one of two ways: the invocation is refused and nothing but the guard
changes, or a handler accepts it (`Formed.deliver_cases`).  A form can always be written when two
passes are allowed and the size of a response is not limited (`Formed.answers`).
-/

namespace UiSync.Demo

open Json

/-! ## Places -/

namespace Place

def calculator : ComponentId := ⟨3⟩
def name : ComponentId := ⟨4⟩
def follower : ComponentId := ⟨5⟩
def notifier : ComponentId := ⟨6⟩
def listing : ComponentId := ⟨7⟩

end Place

inductive Attends : ComponentId → String → Handler → Prop
  | calculator : Attends Place.calculator Interface.sum .calculator
  | textField : Attends Place.name Interface.textField .textField
  | contextHelp : Attends Place.name Interface.contextHelp .contextHelp
  | listing : Attends Place.listing Interface.listing .listing

theorem entries_form (config : Config) :
    (formSession config).registry.handlers.entries.map (fun e => (e.1, e.2.entries)) =
      [(Place.calculator, [(Interface.sum, .calculator)]),
        (Place.name, [(Interface.contextHelp, .contextHelp), (Interface.textField, .textField)]),
        (Place.listing, [(Interface.listing, .listing)])] := by cbv

theorem attends_iff {config : Config} {id : ComponentId} {interface : String} {h : Handler} :
    (formSession config).registry.handler? id interface = some h ↔ Attends id interface h := by
  constructor
  · intro hh
    unfold Registry.handler? Registry.handlersOf at hh
    cases hid : (formSession config).registry.handlers.get? id with
    | none =>
      rw [hid] at hh
      cases hh
    | some hs =>
      rw [hid] at hh
      have hmem := List.mem_map_of_mem (f := fun e : ComponentId × Dict String Handler =>
        (e.1, e.2.entries)) (Dict.get?_eq_some_iff.1 hid)
      have hi : (interface, h) ∈ hs.entries := Dict.get?_eq_some_iff.1 hh
      rw [entries_form] at hmem
      simp only [List.mem_cons, List.not_mem_nil, or_false, Prod.mk.injEq] at hmem
      rcases hmem with ⟨rfl, he⟩ | ⟨rfl, he⟩ | ⟨rfl, he⟩
      all_goals
        rw [he] at hi
        simp only [List.mem_cons, List.not_mem_nil, or_false, Prod.mk.injEq] at hi
      · obtain ⟨rfl, rfl⟩ := hi
        exact .calculator
      · rcases hi with ⟨rfl, rfl⟩ | ⟨rfl, rfl⟩
        · exact .contextHelp
        · exact .textField
      · obtain ⟨rfl, rfl⟩ := hi
        exact .listing
  · intro ha
    cases ha <;> cbv

/-- components that come after the listing have no handlers -/
theorem Attends.le {id : ComponentId} {interface : String} {h : Handler}
    (ha : Attends id interface h) : id.value ≤ Place.listing.value := by
  cases ha <;> decide

theorem Attends.of_listing {id : ComponentId} {interface : String}
    (ha : Attends id interface .listing) :
    id = Place.listing ∧ interface = Interface.listing := by
  cases ha
  exact ⟨rfl, rfl⟩

theorem Attends.of_sum {id : ComponentId} {h : Handler} (ha : Attends id Interface.sum h) :
    id = Place.calculator := by
  generalize hi : Interface.sum = interface at ha
  cases ha with
  | calculator => rfl
  | _ => exact absurd hi (by decide)

theorem Attends.listing_of_eq {interface : String} {h : Handler}
    (ha : Attends Place.listing interface h) : h = .listing := by
  cases ha
  rfl

/-! ## Arguments -/

theorem arg_eq_ok {α : Type} {call : Invocation} {view : View α} {a : α}
    (h : call.arg view 0 = .ok a) : ∃ v rest, call.args = v :: rest ∧ view v = .ok a := by
  unfold Invocation.arg at h
  cases hargs : call.args with
  | nil =>
    rw [hargs] at h
    cases h
  | cons v rest =>
    simp only [hargs, List.getElem?_cons_zero] at h
    cases hv : view v with
    | ok b =>
      rw [hv] at h
      obtain rfl := Except.ok.inj h
      exact ⟨v, rest, rfl, hv⟩
    | error reason =>
      rw [hv] at h
      cases h

theorem intBetween_eq_ok {low high n : Int} {expected : String} {v : Value} :
    v.scalar.intBetween low high expected = .ok n ↔
      ∃ m : Integer, v = .integer m ∧ m.val = n ∧ low ≤ n ∧ n ≤ high := by
  cases v with
  | integer m =>
    show (if low ≤ m.val ∧ m.val ≤ high then _ else _ : Except Reason Int) = _ ↔ _
    by_cases hm : low ≤ m.val ∧ m.val ≤ high
    · rw [if_pos hm]
      constructor
      · intro h
        obtain rfl := Except.ok.inj h
        exact ⟨m, rfl, rfl, hm⟩
      · rintro ⟨m', he, rfl, -⟩
        cases he
        rfl
    · rw [if_neg hm]
      refine iff_of_false nofun ?_
      rintro ⟨m', he, rfl, hbounds⟩
      cases he
      exact hm hbounds
  | _ => exact iff_of_false nofun fun ⟨m, he, _⟩ => by cases he

/-- a word is read off an integer only -/
theorem nat_eq_ok {bits n : Nat} {expected : String} {v : Value}
    (h : View.nat bits expected v = .ok n) :
    ∃ m : Integer, v = .integer m ∧ m.val.toNat = n ∧ n < 2 ^ bits := by
  unfold View.nat Scalar.natBelow at h
  cases hv : v.scalar.intBetween 0 ((1 <<< bits : Nat) - 1) expected with
  | error reason =>
    rw [hv] at h
    cases h
  | ok k =>
    rw [hv] at h
    obtain ⟨m, rfl, rfl, hlow, hhigh⟩ := intBetween_eq_ok.1 hv
    obtain rfl := Except.ok.inj h
    rw [Nat.one_shiftLeft] at hhigh
    exact ⟨m, rfl, rfl, by omega⟩

/-! ## Hooks -/

/-- a component of a form: there are no scripts, and the notifier has one dependent -/
def Plain (id : ComponentId) (c : Part) : Prop :=
  match c.model with
  | .widget _ => False
  | .notifier dependents => id = Place.notifier ∧ dependents = [Place.follower]
  | _ => True

theorem plain_of_listing {id : ComponentId} {c : Part} {l : Listing} (h : c.model = .listing l) :
    Plain id c := by
  unfold Plain
  rw [h]
  exact trivial

theorem plain_of_calculator {id : ComponentId} {c : Part} {runs : Nat}
    (h : c.model = .calculator runs) : Plain id c := by
  unfold Plain
  rw [h]
  exact trivial

theorem plain_noteEditor {id : ComponentId} {c : Part} (h : Plain id c) (editor : ComponentId) :
    Plain id (noteEditor editor c) := by
  unfold noteEditor
  split
  · exact trivial
  · exact h

theorem plain_observed {id : ComponentId} {c : Part} (h : Plain id c) (change : DataChange Row) :
    Plain id (observed change c) := by
  unfold observed
  split
  · exact trivial
  · exact h

theorem upholds_plain (rows : List Row) : (behaviour rows).Upholds Plain := by
  intro id c first h
  obtain ⟨kind, fields, model⟩ := c
  cases model with
  | notifier dependents => exact h
  | widget w => exact h.elim
  | _ => exact trivial

/-- hooks of a form ask for no change of the tree, and mark the follower at most -/
theorem hook_plain {rows : List Row} {id : ComponentId} {c : Part} (h : Plain id c) (first : Bool) :
    (hook rows id c first).requests = [] ∧ ∀ target ∈ (hook rows id c first).marks,
      id = Place.notifier ∧ target = Place.follower := by
  obtain ⟨kind, fields, model⟩ := c
  cases model with
  | notifier dependents =>
    obtain ⟨hid, hdependents⟩ := h
    refine ⟨rfl, fun target ht => ⟨hid, ?_⟩⟩
    change target ∈ dependents at ht
    rw [hdependents] at ht
    exact List.mem_singleton.1 ht
  | widget w => exact h.elim
  | _ => exact ⟨rfl, fun target ht => absurd ht List.not_mem_nil⟩

/-! ## Handlers -/

/-- a handler that goes wrong did nothing before -/
theorem handle_error {h : Handler} {c : Part} {call : Invocation} {r : PartReaction}
    {e : InvocationError} (hs : ∀ methods, h ≠ .script methods)
    (hr : handle h c call = (r, .error e)) : r = .idle c.model := by
  have hrefuse : ∀ e', refuse c e' = (r, .error e) → r = .idle c.model :=
    fun e' he => (congrArg Prod.fst he).symm
  have haccept : ∀ r', accept r' = (r, .error e) → r = .idle c.model :=
    fun r' he => by cases congrArg Prod.snd he
  unfold handle at hr
  split at hr
  · unfold handleCalculator at hr
    split at hr
    · exact hrefuse _ hr
    · split at hr
      · exact hrefuse _ hr
      · exact haccept _ hr
  · unfold handleTextField at hr
    split at hr
    · exact hrefuse _ hr
    · split at hr
      · exact hrefuse _ hr
      · split at hr
        · exact hrefuse _ hr
        · exact haccept _ hr
  · unfold handleContextHelp at hr
    split at hr
    · exact hrefuse _ hr
    · split at hr
      · exact hrefuse _ hr
      · exact haccept _ hr
  · unfold handleListing at hr
    split at hr
    · split at hr
      · exact hrefuse _ hr
      · exact hrefuse _ hr
      · exact haccept _ hr
    · split at hr
      · exact hrefuse _ hr
      · exact haccept _ hr
    · exact haccept _ hr
    · exact hrefuse _ hr
  · exact absurd rfl (hs _)
  · exact hrefuse _ hr

/-- handlers other than that of the listing leave the tree alone, and mark what they edit -/
theorem handle_elsewhere {h : Handler} {c : Part} {call : Invocation} {r : PartReaction}
    (hl : h ≠ .listing) (hs : ∀ methods, h ≠ .script methods)
    (hr : handle h c call = (r, .ok ())) :
    r.requests = [] ∧ (r.edits = [] ∨ call.component ∈ r.marks) ∧
      ∀ id, Plain id c → Plain id (r.apply c) := by
  have hrefuse : ∀ e, refuse c e ≠ (r, .ok ()) := fun e he => by cases congrArg Prod.snd he
  have haccept : ∀ r', accept r' = (r, .ok ()) → r' = r := fun r' he => congrArg Prod.fst he
  have hmark : call.component ∈ [call.component] := List.mem_singleton_self _
  unfold handle at hr
  split at hr
  · unfold handleCalculator at hr
    split at hr
    · exact absurd hr (hrefuse _)
    · split at hr
      · exact absurd hr (hrefuse _)
      · obtain rfl := haccept _ hr
        exact ⟨rfl, .inr hmark, fun id h => h⟩
  · unfold handleTextField at hr
    split at hr
    · exact absurd hr (hrefuse _)
    · split at hr
      · exact absurd hr (hrefuse _)
      · split at hr
        · exact absurd hr (hrefuse _)
        · obtain rfl := haccept _ hr
          exact ⟨rfl, .inr hmark, fun id h => h⟩
  · unfold handleContextHelp at hr
    split at hr
    · exact absurd hr (hrefuse _)
    · split at hr
      · exact absurd hr (hrefuse _)
      · obtain rfl := haccept _ hr
        exact ⟨rfl, .inl rfl, fun id _ => trivial⟩
  · exact absurd rfl hl
  · exact absurd rfl (hs _)
  · exact absurd hr (hrefuse _)

/-! ## Forms -/

structure Formed (s : PartSession) : Prop where
  current : s.Current
  handlers : ∀ id interface h,
    s.registry.handler? id interface = some h ↔ Attends id interface h
  plain : s.tree.Each Plain

namespace Formed

variable {rows : List Row} {s s' : PartSession} {call : Invocation} {c : Part} {r : PartReaction}

/-- the models of a form that was built just now -/
theorem models_form (config : Config) :
    (formSession config).tree.nodes.entries.map (fun e => (e.1, e.2.component.model)) =
      [(⟨1⟩, .layout), (⟨2⟩, .label), (Place.calculator, .calculator 0),
        (Place.name, .textField []), (Place.follower, .follower []),
        (Place.notifier, .notifier [Place.follower]),
        (Place.listing, .listing (.ofRows none 5))] := by cbv

/-- every component of a new form is dirty -/
theorem dirty_form (config : Config) :
    (formSession config).tree.nodes.keys = (formSession config).dirty.members.keys := by cbv

theorem start (config : Config) : Formed (formSession config) := by
  refine ⟨⟨(recorded_form config).wellFormed, fun id c hc hclean => ?_⟩,
    fun id interface h => attends_iff, fun id c hc => ?_⟩
  · obtain ⟨n, hn, -⟩ := Tree.get?_eq_some_iff.1 hc
    have hmem : id ∈ (formSession config).tree.nodes.keys := Dict.mem_keys.2 ⟨n, hn⟩
    rw [dirty_form] at hmem
    have hcontains : ∀ d : DirtySet, id ∈ d.members.keys → d.contains id = true :=
      fun d hd => Dict.contains_iff.2 (Dict.mem_keys.1 hd)
    have hdirty : (formSession config).isDirty id = true := hcontains _ hmem
    rw [hdirty] at hclean
    cases hclean
  · obtain ⟨n, hn, rfl⟩ := Tree.get?_eq_some_iff.1 hc
    have hmem := List.mem_map_of_mem (f := fun e : ComponentId × Node Model =>
      (e.1, e.2.component.model)) (Dict.get?_eq_some_iff.1 hn)
    rw [models_form] at hmem
    simp only [List.mem_cons, List.not_mem_nil, or_false, Prod.mk.injEq] at hmem
    unfold Plain
    rcases hmem with ⟨-, h⟩ | ⟨-, h⟩ | ⟨-, h⟩ | ⟨-, h⟩ | ⟨-, h⟩ | ⟨rfl, h⟩ | ⟨-, h⟩
    all_goals rw [h]
    all_goals first | exact trivial | exact ⟨rfl, rfl⟩

/-- nothing but marks and what stands beside the tree and the handlers has changed -/
theorem congr (h : Formed s) (ht : s'.tree = s.tree) (hr : s'.registry = s.registry)
    (hd : ∀ id, s.isDirty id = true → s'.isDirty id = true) : Formed s' :=
  ⟨h.current.congr ht hd, hr ▸ h.handlers, ht ▸ h.plain⟩

theorem reacted (h : Formed s) (hr : s.Reacted call c r s')
    (hc : s.tree.get? call.component = some c)
    (hmarks : r.edits = [] ∨ call.component ∈ r.marks)
    (hplain : Plain call.component (r.apply c)) : Formed s' :=
  ⟨h.current.reacted hr hc hmarks, hr.registry ▸ h.handlers, h.plain.reacted hr hplain⟩

/-- components changed in place, but for their fields -/
theorem edited (h : Formed s) (hshape : Tree.SameShape s.tree s'.tree)
    (hr : s'.registry = s.registry) (hd : ∀ id, s.isDirty id = true → s'.isDirty id = true)
    (hc : ∀ id d, s'.tree.get? id = some d → ∃ c, s.tree.get? id = some c ∧ d.fields = c.fields)
    (hplain : s'.tree.Each Plain) : Formed s' :=
  ⟨h.current.edited hshape hd fun id d hget _ => hc id d hget, hr ▸ h.handlers, hplain⟩

theorem attach (h : Formed s) {parent id : ComponentId} {c : Part}
    (ha : s.attach parent c = .ok (id, s')) (hc : Plain id c) : Formed s' := by
  have hcurrent := h.current.attach ha
  obtain ⟨t', ht, rfl⟩ := Session.attach_ok ha
  exact ⟨hcurrent, h.handlers, h.plain.attach h.current.wellFormed ht hc⟩

/-- the handlers stay when a component goes that came after the listing -/
theorem detach (h : Formed s) {id : ComponentId} (hd : s.detach id = .ok s')
    (hid : Place.listing.value < id.value) : Formed s' := by
  have hcurrent := h.current.detach hd
  have hw := h.current.wellFormed
  obtain ⟨removed, t', ht, rfl⟩ := Session.detach_ok hd
  have hdet := hw.detached ht
  refine ⟨hcurrent, fun x interface handler => ?_, h.plain.detach hw ht⟩
  rw [← h.handlers x interface handler]
  by_cases hx : x ∈ removed
  · -- nobody attends to what was removed
    have hle := hw.le_of_under ((hdet.mem_removed x).1 hx)
    have hnobody : s.registry.handler? x interface ≠ some handler := by
      intro hh
      have hlow := ((h.handlers _ _ _).1 hh).le
      omega
    refine iff_of_false (fun hh => ?_) hnobody
    rw [Registry.handler?, Registry.handlersOf, Registry.handlers_removeAll,
      Dict.get?_eraseAll_of_mem hx] at hh
    cases hh
  · rw [Registry.handler?, Registry.handlersOf, Registry.handlers_removeAll,
      Dict.get?_eraseAll_of_notMem hx]
    rfl

/-- a note of an editor is taken -/
theorem noted (h : Formed s) (id editor : ComponentId) :
    Formed (s.update id (noteEditor editor)) := by
  refine h.edited (Tree.sameShape_update s.tree id _) rfl (fun x hx => hx) (fun x d hd => ?_) ?_
  · rcases Tree.get?_update_cases hd with hd | ⟨c, hc, rfl⟩
    · exact ⟨d, hd, rfl⟩
    · exact ⟨c, hc, fields_noteEditor editor c⟩
  · exact h.plain.update fun c hc => plain_noteEditor (h.plain id c hc) editor

/-- listings were told of a change of the rows -/
theorem observe (h : Formed s) (change : DataChange Row) : Formed (observeRows change s) := by
  refine h.edited (Tree.sameShape_updateAll s.tree (observed change)) rfl (fun x hx => hx)
    (fun x d hd => ?_) ?_
  · change (s.tree.updateAll (observed change)).get? x = some d at hd
    rw [Tree.get?_component_updateAll, Option.map_eq_some_iff] at hd
    obtain ⟨c, hc, rfl⟩ := hd
    exact ⟨c, hc, fields_observed change c⟩
  · exact h.plain.updateAll fun id c hc => plain_observed hc change

theorem greet (h : Formed s) (seen : Option SequenceNumber) : Formed (s.greet seen) := by
  refine ⟨h.current.greet seen, ?_, ?_⟩
  · rcases s.greet_cases seen with he | he
    · rw [he]
      exact h.handlers
    · rw [he]
      exact h.handlers
  · rcases s.greet_cases seen with he | he
    · rw [he]
      exact h.plain
    · rw [he]
      exact h.plain.updateAll fun id c hc => hc

/-- responses keep a form, also those that could not be written -/
theorem respond (h : Formed s) : Formed (s.respond (behaviour rows)).1 := by
  have hplain : (s.respond (behaviour rows)).1.tree.Each Plain :=
    h.plain.respond (upholds_plain rows) fun id c hc => hc
  cases hr : s.respond (behaviour rows) with
  | mk s' outcome =>
    rw [hr] at hplain
    cases outcome with
    | ok response =>
      refine ⟨h.current.respond hr, ?_, hplain⟩
      obtain ⟨k, -, rfl, -⟩ := Session.respond_ok hr
      exact h.handlers
    | error e =>
      refine ⟨h.current.unanswered hr, ?_, hplain⟩
      obtain ⟨k, hab⟩ := Session.abandoned_of_respond h.current.wellFormed hr
      rw [hab.state]
      exact h.handlers

/-! ### Deliveries -/

theorem not_script (h : Formed s) {id : ComponentId} {interface : String} {handler : Handler}
    (hh : s.registry.handler? id interface = some handler) (methods : Methods) :
    handler ≠ .script methods := by
  have ha := (h.handlers _ _ _).1 hh
  rintro rfl
  cases ha

/-- an invocation is refused without a trace but in the guard, or a handler accepts it -/
theorem deliver_cases (h : Formed s) (rows : List Row) (call : Invocation) :
    (∃ g e, s.deliver (behaviour rows) call = ({ s with guard := g }, .error e)) ∨
      ∃ handler c r, s.Accepts call handler c ∧ handle handler c call = (r, .ok ()) ∧
        s.deliver (behaviour rows) call = Session.answerFor call.component
          (({ s with guard := s.guard.record call.sequence }.absorb call.component r).applyRequests
            (behaviour rows) r.requests) := by
  by_cases hpass : s.guard.check call.sequence = .ok ()
  case neg =>
    obtain ⟨last, -, he⟩ := Session.deliver_refused hpass (behaviour rows)
    exact .inl ⟨s.guard, _, he⟩
  case pos =>
    have hnone (hh : s.handlerFor? call = none) :
        ∃ g e, s.deliver (behaviour rows) call = ({ s with guard := g }, .error e) := by
      refine ⟨s.guard.record call.sequence, .unknownTarget call.component call.interface, ?_⟩
      rw [Session.deliver_passed hpass]
      exact Session.dispatch_of_handlerFor_none hh
    cases hhandler : s.registry.handler? call.component call.interface with
    | none => exact .inl (hnone (by rw [Session.handlerFor?, hhandler, ite_self]))
    | some handler =>
      cases hc : s.tree.get? call.component with
      | none =>
        refine .inl (hnone (if_neg fun hid => ?_))
        obtain ⟨d, hd⟩ := Tree.contains_iff_get?.1 hid
        cases hc.symm.trans hd
      | some c =>
        have hacc : s.Accepts call handler c := ⟨hpass, hhandler, hc⟩
        cases hr : handle handler c call with
        | mk r answer =>
          have hdeliver := Session.deliver_accepted (b := behaviour rows) hacc hr
          cases answer with
          | ok => exact .inr ⟨handler, c, r, hacc, hr, hdeliver⟩
          | error e =>
            obtain rfl := handle_error (h.not_script hhandler) hr
            have hsame : { s with guard := s.guard.record call.sequence }.absorb call.component
                (.idle c.model : PartReaction) = { s with guard := s.guard.record call.sequence } :=
              Session.absorb_idle hc
            exact .inl ⟨s.guard.record call.sequence, e, hdeliver.trans (Prod.ext hsame rfl)⟩

/-! ### Writing a form -/

/-- marks lead from the notifier to the follower only -/
def targets (id : ComponentId) : Set ComponentId :=
  { target | id = Place.notifier ∧ target = Place.follower }

theorem marksWithin (h : Formed s) (rows : List Row) :
    s.MarksWithin (behaviour rows) targets := by
  intro run hr id hid
  obtain ⟨k, hk, hreaction⟩ := Session.exists_hook h.plain (upholds_plain rows) hr
  rw [hreaction] at hid
  exact (hook_plain hk _).2 id hid

theorem not_marks_calculator (h : Formed s) {run : HookRun Model Setup}
    (hr : run ∈ s.hookRuns (behaviour rows)) : ¬ run.Marks Place.calculator := by
  intro hm
  have ht := h.marksWithin rows run hr _ hm.1
  cases ht.2

/-- two passes are enough -/
theorem answers (h : Formed s) (rows : List Row) (hp : 2 ≤ s.config.maxFinalizePasses)
    (hl : s.config.maxResponseBytes = none) :
    ∃ s' response, s.respond (behaviour rows) = (s', .ok response) := by
  have hwithin := Session.within_finalize h.current.wellFormed (h.marksWithin rows)
  have hchain : ∀ id, ¬ s.Chain targets s.config.maxFinalizePasses id := by
    intro id hc
    obtain ⟨n, hn⟩ : ∃ n, s.config.maxFinalizePasses = n + 1 + 1 :=
      ⟨s.config.maxFinalizePasses - 2, by omega⟩
    rw [hn] at hc
    cases hc with
    | mark hc hlast =>
      cases hc with
      | mark _ hfirst =>
        -- the follower is not the notifier
        have hsource := hlast.mem.1
        rw [hfirst.mem.2] at hsource
        cases hsource
  rcases Session.completes_of_within hwithin hchain with ⟨k, hk⟩ | ⟨run, k, -, hr, hrequests⟩
  · exact ⟨_, _, Session.respond_of_finalize hk hl⟩
  · obtain ⟨c, hc, hreaction⟩ := Session.exists_hook h.plain (upholds_plain rows) hr
    rw [hreaction] at hrequests
    exact absurd (hook_plain hc _).1 hrequests

end Formed

end UiSync.Demo
