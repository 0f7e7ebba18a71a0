import UiSync.Demo.Form
import UiSync.Proofs.Session.History

/-!
# The demo keeps to operations

Whatever demo components ask of a session is a series of operations, and their handlers ask for new
components only (`Demo.regular_behaviour`).  The form is built by operations as well
(`Demo.recorded_form`), so that what holds of every session holds of the form.
-/

namespace UiSync.Demo

open Session (Act Acts acts_of_act)

/-! ## Handlers -/

theorem unsent_ofBlueprint (b : Blueprint) : (Part.ofBlueprint b).fields.Unsent := by
  cases b
  exact FieldBag.unsent_ofFields _

theorem unsent_label (caption : String) : (Part.label caption).fields.Unsent := ⟨rfl, rfl, rfl⟩

namespace Draft

def Fresh (d : Draft) : Prop := ∀ q ∈ d.reaction.requests, q.Fresh

namespace Fresh

variable {d : Draft}

theorem start (c : Part) (model : Model) : (Draft.start c model).Fresh :=
  fun _ hq => absurd hq List.not_mem_nil

theorem request (h : d.Fresh) {q : TreeRequest Model Setup} (hq : q.Fresh) :
    (d.request q).Fresh := by
  intro x hx
  rcases List.mem_append.1 hx with hx | hx
  · exact h x hx
  · exact List.mem_singleton.1 hx ▸ hq

theorem act (h : d.Fresh) (self : ComponentId) (a : Action) : (d.act self a).Fresh := by
  cases a with
  | attach parent component setup => exact h.request (unsent_ofBlueprint component)
  | detach id => exact h.request trivial
  | _ => exact h

theorem handle (h : d.Fresh) (call : Invocation) (a : Action) : (d.handle call a).1.Fresh := by
  cases a with
  | setArg name index shape =>
    simp only [Draft.handle]
    cases call.arg shape.check index with
    | ok value => exact h
    | error e => exact h
  | fail message => exact h
  | _ => exact h.act call.component _

theorem handleAll (h : d.Fresh) (call : Invocation) (actions : List Action) :
    (d.handleAll call actions).1.Fresh := by
  induction actions generalizing d with
  | nil => exact h
  | cons a actions ih =>
    have hfirst := h.handle call a
    unfold Draft.handleAll
    cases hd : d.handle call a with
    | mk d' result =>
      rw [hd] at hfirst
      cases result with
      | ok => exact ih hfirst
      | error e => exact hfirst

end Fresh

end Draft

theorem fresh_handleListing (c : Part) (l : Listing) (call : Invocation) :
    ∀ q ∈ (handleListing c l call).1.requests, q.Fresh := by
  have hclosing : ∀ q ∈ closing l, q.Fresh := by
    intro q hq
    obtain ⟨e, -, rfl⟩ := List.mem_map.1 hq
    exact trivial
  intro q hq
  unfold handleListing at hq
  split at hq
  · split at hq <;> exact absurd hq List.not_mem_nil
  · split at hq
    · exact absurd hq List.not_mem_nil
    · rcases List.mem_append.1 hq with hq | hq
      · exact hclosing q hq
      · obtain rfl := List.mem_singleton.1 hq
        exact unsent_label _
  · exact hclosing q hq
  · exact absurd hq List.not_mem_nil

theorem fresh_handle (h : Handler) (c : Part) (call : Invocation) :
    ∀ q ∈ (handle h c call).1.requests, q.Fresh := by
  intro q hq
  unfold handle at hq
  split at hq
  · unfold handleCalculator at hq
    split at hq
    · exact absurd hq List.not_mem_nil
    · split at hq <;> exact absurd hq List.not_mem_nil
  · unfold handleTextField at hq
    split at hq
    · exact absurd hq List.not_mem_nil
    · split at hq
      · exact absurd hq List.not_mem_nil
      · split at hq <;> exact absurd hq List.not_mem_nil
  · unfold handleContextHelp at hq
    split at hq
    · exact absurd hq List.not_mem_nil
    · split at hq <;> exact absurd hq List.not_mem_nil
  · exact fresh_handleListing _ _ call q hq
  · next methods w =>
    unfold handleScript at hq
    split at hq
    · exact absurd hq List.not_mem_nil
    · next actions _ => exact (Draft.Fresh.start c c.model).handleAll call actions q hq
  · exact absurd hq List.not_mem_nil

/-! ## Setups -/

/-- what is done in place to a component depends on that component only -/
theorem update_congr {s : PartSession} {id : ComponentId} {f g : Part → Part}
    (h : ∀ c, s.tree.get? id = some c → f c = g c) : s.update id f = s.update id g := by
  unfold Session.update Tree.update Dict.modify
  cases hn : s.tree.nodes.get? id with
  | none => rfl
  | some n =>
    have hf : f n.component = g n.component := h _ (Tree.get?_eq_some_iff.2 ⟨n, hn, rfl⟩)
    simp only [hf]

theorem noteEditor_eq (editor : ComponentId) (c : Part) :
    noteEditor editor c = c.revise [] (noteEditor editor c).model := by
  unfold noteEditor
  cases c.model <;> rfl

theorem fields_noteEditor (editor : ComponentId) (c : Part) :
    (noteEditor editor c).fields = c.fields := by
  unfold noteEditor
  split <;> rfl

/-- noting an editor is a change of the model -/
theorem acts_noteEditor (s : PartSession) (owner editor : ComponentId) :
    Acts true s (s.update owner (noteEditor editor)) := by
  obtain ⟨model, hmodel⟩ : ∃ model, s.update owner (noteEditor editor) =
      s.update owner (Component.revise [] model) := by
    cases hc : s.tree.get? owner with
    | none =>
      refine ⟨.layout, update_congr fun c h => ?_⟩
      rw [hc] at h
      cases h
    | some c =>
      refine ⟨(noteEditor editor c).model, update_congr fun d h => ?_⟩
      rw [hc] at h
      obtain rfl := Option.some.inj h
      exact noteEditor_eq editor c
  rw [hmodel]
  exact acts_of_act (.edit owner [] model)

theorem act_runStep {s s' : PartSession} {self : ComponentId} {step : SetupStep}
    (h : runStep s self step = .ok s') : Act true s s' := by
  cases step with
  | register id interface methods => exact .register h
  | call id interface method args => exact .call h
  | attach id component =>
    obtain ⟨⟨x, t⟩, ha, rfl⟩ : ∃ a, s.attach (id.getD self) (Part.ofBlueprint component) = .ok a ∧
        a.2 = s' := by
      change (s.attach (id.getD self) (Part.ofBlueprint component)).map Prod.snd = .ok s' at h
      cases ha : s.attach (id.getD self) (Part.ofBlueprint component) with
      | error e =>
        rw [ha] at h
        cases h
      | ok a =>
        rw [ha] at h
        exact ⟨a, rfl, Except.ok.inj h⟩
    exact .attach (unsent_ofBlueprint component) ha
  | detach id => exact .detach h
  | mark id =>
    obtain rfl := Except.ok.inj h
    exact .mark _
  | clear id =>
    obtain rfl := Except.ok.inj h
    exact .clear _ rfl

theorem acts_runSteps (self : ComponentId) (steps : List SetupStep) (s : PartSession) :
    Acts true s (runSteps s self steps).1 := by
  induction steps generalizing s with
  | nil => exact .refl
  | cons step steps ih =>
    unfold runSteps
    cases hs : runStep s self step with
    | ok s' => exact (acts_of_act (act_runStep hs)).trans (ih s')
    | error e => exact .refl

/-- demo handlers ask for new components, and setups keep to operations -/
theorem regular_behaviour (shared : List Row) : (behaviour shared).Regular true where
  fresh := fresh_handle
  setup := by
    intro x s id
    cases x with
    | noteEditor owner => exact acts_noteEditor s owner id
    | script steps => exact acts_runSteps id steps s

/-! ## Changes of the rows -/

/-- a component once it was told of a change of the rows -/
def observed (change : DataChange Row) (c : Part) : Part :=
  match c.model with
  | .listing l => { c with model := .listing (l.observe change) }
  | _ => c

theorem fields_observed (change : DataChange Row) (c : Part) :
    (observed change c).fields = c.fields := by
  unfold observed
  split <;> rfl

theorem observed_of_listing {c : Part} {l : Listing} (h : c.model = .listing l)
    (change : DataChange Row) : (observed change c).model = .listing (l.observe change) := by
  unfold observed
  rw [h]

theorem observed_of_label {c : Part} (h : c.model = .label) (change : DataChange Row) :
    observed change c = c := by
  unfold observed
  rw [h]

theorem edited_observed (change : DataChange Row) (c : Part) : c.Edited (observed change c) := by
  unfold observed
  split
  · exact ⟨rfl, rfl, rfl, fun h => h⟩
  · exact .refl c

theorem editor_observe (change : DataChange Row) (l : Listing) :
    (l.observe change).editor = l.editor := by
  unfold Listing.observe
  split <;> rfl

/-! ## The form -/

theorem acts_attach {s s' : PartSession} {parent id : ComponentId} {c : Part}
    (hc : c.fields.Unsent) (h : s.attach parent c = .ok (id, s')) : Acts true s s' :=
  acts_of_act (.attach hc h)

theorem buildForm_ofRoot (config : Config) :
    buildForm (Session.ofRoot Part.layout config) = .ok (formSession config) := by cbv

theorem exists_of_bind_ok {ε α β : Type} {x : Except ε α} {f : α → Except ε β} {r : β}
    (h : x >>= f = .ok r) : ∃ a, x = .ok a ∧ f a = .ok r := by
  cases x with
  | error e => cases h
  | ok a => exact ⟨a, rfl, h⟩

theorem acts_buildForm {s s' : PartSession} (h : buildForm s = .ok s') : Acts true s s' := by
  unfold buildForm registerCalculator registerTextField registerListing at h
  obtain ⟨⟨title, s₁⟩, h₁, h⟩ := exists_of_bind_ok h
  obtain ⟨⟨sum, s₂⟩, h₂, h⟩ := exists_of_bind_ok h
  obtain ⟨s₃, h₃, h⟩ := exists_of_bind_ok h
  obtain ⟨⟨name, s₄⟩, h₄, h⟩ := exists_of_bind_ok h
  obtain ⟨s₅, h₅, h⟩ := exists_of_bind_ok h
  obtain ⟨s₆, h₆, h₅⟩ := exists_of_bind_ok h₅
  obtain ⟨⟨follower, s₇⟩, h₇, h⟩ := exists_of_bind_ok h
  obtain ⟨⟨notifier, s₈⟩, h₈, h⟩ := exists_of_bind_ok h
  obtain ⟨⟨listing, s₉⟩, h₉, h⟩ := exists_of_bind_ok h
  have hunsent : ∀ c ∈ [Part.label "Demo", Part.calculator, nameField, Part.follower,
      Part.notifier [follower], Part.listing none 5], c.fields.Unsent := by
    intro c hc
    simp only [List.mem_cons, List.not_mem_nil, or_false] at hc
    rcases hc with rfl | rfl | rfl | rfl | rfl | rfl <;> exact ⟨rfl, rfl, rfl⟩
  have hs₂ : Acts true s s₂ :=
    (acts_attach (hunsent _ (by simp)) h₁).trans (acts_attach (hunsent _ (by simp)) h₂)
  have hs₄ : Acts true s₂ s₄ :=
    (acts_of_act (.register h₃)).trans (acts_attach (hunsent _ (by simp)) h₄)
  have hs₅ : Acts true s₄ s₅ :=
    (acts_of_act (.register h₆)).trans (acts_of_act (.register h₅))
  have hs₈ : Acts true s₅ s₈ :=
    (acts_attach (hunsent _ (by simp)) h₇).trans (acts_attach (hunsent _ (by simp)) h₈)
  have hs' : Acts true s₈ s' :=
    (acts_attach (hunsent _ (by simp)) h₉).trans (acts_of_act (.register h))
  exact hs₂.trans (hs₄.trans (hs₅.trans (hs₈.trans hs')))

theorem recorded_form (config : Config) : Recorded [] (formSession config) := by
  have hroot : Part.layout.fields.Unsent := FieldBag.unsent_ofFields _
  exact (recorded_ofRoot hroot config).acts (acts_buildForm (buildForm_ofRoot config))

end UiSync.Demo
