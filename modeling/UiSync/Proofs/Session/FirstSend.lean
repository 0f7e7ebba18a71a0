import UiSync.Proofs.Lists
import UiSync.Proofs.Session.GivingUp
import UiSync.Proofs.Session.Sends

/-!
# What hooks are told of earlier sends

A hook is told whether its component counts as never sent.  It does until a response lists it, and
again once a client asks for everything anew (`Chronicle.initial_iff`).  So a component that some
response listed can be told that it was never sent (`Session.not_initial_iff_untold`).
-/

namespace UiSync

variable {μ η σ : Type}

/-! ## The stage at which a hook runs -/

namespace Cascade

variable {b : Behaviour μ η σ} {c d : Cascade μ} {run : HookRun μ σ}
  {runs before after : List (HookRun μ σ)}

theorem Course.split (h : Course b c runs d) (he : runs = before ++ run :: after) :
    ∃ e, Course b c before e ∧ e.Runs b run := by
  induction h generalizing before with
  | done c =>
    have hlen := congrArg List.length he
    simp at hlen
  | pass _ ih =>
    obtain ⟨e, hc, hr⟩ := ih he
    exact ⟨e, .pass hc, hr⟩
  | gone hid _ ih =>
    obtain ⟨e, hc, hr⟩ := ih he
    exact ⟨e, .gone hid hc, hr⟩
  | @ran c d first runs hfirst _ ih =>
    cases before with
    | nil =>
      obtain ⟨rfl, -⟩ := List.cons.inj he
      exact ⟨c, .done c, hfirst⟩
    | cons other before =>
      obtain ⟨rfl, hrest⟩ := List.cons.inj he
      obtain ⟨e, hc, hr⟩ := ih hrest
      exact ⟨e, .ran hfirst hc, hr⟩

theorem Leads.split {outcome : Except (CascadeError × Cascade μ) (Cascade μ)}
    (h : Leads b c runs outcome) (he : runs = before ++ run :: after) :
    ∃ e, Course b c before e ∧ e.Runs b run := by
  cases h with
  | settled hd => exact hd.split he
  | overflow _ hd => exact hd.split he
  | @refused d last runs _ hd hlast =>
    rcases concat_eq_append_cons he with ⟨rfl, rfl, -⟩ | ⟨rest, -, he⟩
    · -- the run is the last one, whose request was refused
      exact ⟨d, hd, hlast⟩
    · exact hd.split he

end Cascade

/-- a hook runs on what the hooks before it left of its component -/
theorem Session.exists_hook_run {b : Behaviour μ η σ} {s : Session μ η} {run : HookRun μ σ}
    {before after : List (HookRun μ σ)} (h : s.hookRuns b = before ++ run :: after) :
    ∃ k, s.tree.get? run.component = some k ∧ run.reaction =
      b.hook run.component (Cascade.revised run.component before k) (!k.fields.everSent) := by
  obtain ⟨e, hcourse, hrun⟩ := (leads_finalize b s).split h
  obtain ⟨k', hk', hreaction⟩ := hrun.reaction
  have hget : e.tree.get? run.component =
      (s.tree.get? run.component).map (Cascade.revised run.component before) :=
    hcourse.explained.components run.component
  rw [hk'] at hget
  obtain ⟨k, hk, rfl⟩ := Option.map_eq_some_iff.1 hget.symm
  refine ⟨k, hk, ?_⟩
  rw [hreaction, Component.everSent_revised]

/-! ## Responses that tell of a component -/

def Event.Tells (id : ComponentId) : Event μ → Prop
  | .committed commit _ => id ∈ commit.message.changes.map FieldChange.component
  | _ => False

def Event.Resyncs : Event μ → Prop
  | .resynced _ => True
  | _ => False

def Told (id : ComponentId) (events : List (Event μ)) : Prop := ∃ e ∈ events, e.Tells id

/-- some response told of the component, and no client asked for everything anew since then -/
def ToldSince (id : ComponentId) (events : List (Event μ)) : Prop :=
  ∃ before e after, events = before ++ e :: after ∧ e.Tells id ∧ ∀ e' ∈ after, ¬ e'.Resyncs

section

variable {id : ComponentId} {events es : List (Event μ)} {e : Event μ}

theorem ToldSince.told (h : ToldSince id events) : Told id events := by
  obtain ⟨before, e, after, rfl, he, -⟩ := h
  exact ⟨e, List.mem_append_right _ (List.mem_cons_self ..), he⟩

theorem toldSince_append_singleton :
    ToldSince id (events ++ [e]) ↔ e.Tells id ∨ ¬ e.Resyncs ∧ ToldSince id events := by
  constructor
  · rintro ⟨before, first, after, he, hfirst, hafter⟩
    rcases concat_eq_append_cons he with ⟨-, rfl, -⟩ | ⟨rest, rfl, hevents⟩
    · exact .inl hfirst
    · refine .inr ⟨hafter e (by simp), before, first, rest, hevents, hfirst, fun e' he' => ?_⟩
      exact hafter e' (List.mem_append_left _ he')
  · rintro (ht | ⟨hr, before, first, after, rfl, hfirst, hafter⟩)
    · exact ⟨events, e, [], rfl, ht, by simp⟩
    · refine ⟨before, first, after ++ [e], by simp, hfirst, fun e' he' => ?_⟩
      rcases List.mem_append.1 he' with he' | he'
      · exact hafter e' he'
      · rw [List.mem_singleton.1 he']
        exact hr

end

/-! ## Last sends and responses -/

namespace Session

variable {b : Behaviour μ η σ} {s s' : Session μ η} {events es : List (Event μ)}
  {id : ComponentId}

theorem Step.isSome_lastSend {new : FieldBag → Prop} {clears : Bool} (hs : Step new clears s es s')
    (h : (lastSend id events).isSome = true ↔ ToldSince id events) :
    (lastSend id (events ++ es)).isSome = true ↔ ToldSince id (events ++ es) := by
  cases hs with
  | attach | detach | call | resync =>
    simp [lastSend_append_singleton, toldSince_append_singleton, Event.lastSend, Event.Tells,
      Event.Resyncs, h]
  | silent _ _ =>
    rw [List.append_nil]
    exact h

theorem isSome_of_mem_changes {response : Response} (hw : s.tree.WellFormed)
    (hr : s.respond b = (s', .ok response))
    (hid : id ∈ response.message.changes.map FieldChange.component) :
    (s'.tree.get? id).isSome = true := by
  obtain ⟨c, hc, rfl, hm⟩ := respond_ok hr
  rw [hm, mem_map_changes_iff] at hid
  obtain ⟨hid, k, diff, hk, -⟩ := hid
  have hwc : c.tree.WellFormed := (edited_of_finalize hc).shape.wellFormed hw
  show ((commitFields c.tree c.finalized).get? id).isSome = true
  rw [get?_commitFields_of_mem (Cascade.nodup_finalized hwc) hid, hk]
  rfl

end Session

namespace Chronicle

variable {events : List (Event μ)} {s : Session μ η} {b : Behaviour μ η σ}

theorem isSome_lastSend (h : Chronicle FieldBag.Unsent σ events s) (id : ComponentId) :
    (lastSend id events).isSome = true ↔ ToldSince id events := by
  induction h with
  | start config _ =>
    refine ⟨fun hl => (by cases hl), fun ht => ?_⟩
    obtain ⟨e, he, ht⟩ := ht.told
    rw [List.mem_singleton.1 he] at ht
    exact ht.elim
  | step _ hs ih => exact hs.isSome_lastSend ih
  | @respond events s s' b response h hr ih =>
    rw [lastSend_append_singleton, toldSince_append_singleton, Event.lastSend]
    show _ ↔ id ∈ response.message.changes.map FieldChange.component ∨ _
    by_cases hid : id ∈ response.message.changes.map FieldChange.component
    · rw [if_pos hid, Option.isSome_map]
      exact ⟨fun _ => .inl hid, fun _ => Session.isSome_of_mem_changes h.wellFormed hr hid⟩
    · rw [if_neg hid, ih]
      exact ⟨fun ht => .inr ⟨fun hr => hr, ht⟩, fun ht => (ht.resolve_left hid).2⟩
  | unanswered _ _ ih =>
    simp [lastSend_append_singleton, toldSince_append_singleton, Event.lastSend, Event.Tells,
      Event.Resyncs, ih]

theorem everSent_iff (h : Chronicle FieldBag.Unsent σ events s) {id : ComponentId} {k : Component μ}
    (hk : s.tree.get? id = some k) : k.fields.everSent = true ↔ ToldSince id events := by
  have hremembers := h.remembered.fields id k hk
  rw [← h.isSome_lastSend id]
  cases hl : lastSend id events with
  | none =>
    rw [hl] at hremembers
    have hever : k.fields.everSent = false := hremembers
    simp [hever]
  | some last =>
    rw [hl] at hremembers
    simp [hremembers.1]

/-- Every hook that runs is told that its component was never sent exactly when no response told of
it since a client last asked for everything anew.  That is the same as no response at all unless one
did, and none since then. -/
theorem initial_iff (h : Chronicle FieldBag.Unsent σ events s) {run : HookRun μ σ}
    {before after : List (HookRun μ σ)} (hr : s.hookRuns b = before ++ run :: after) :
    ∃ k initial, s.tree.get? run.component = some k ∧
      run.reaction = b.hook run.component (Cascade.revised run.component before k) initial ∧
      (initial = true ↔ ¬ ToldSince run.component events) ∧
      ((initial = true ↔ ¬ Told run.component events) ↔
        (Told run.component events → ToldSince run.component events)) := by
  obtain ⟨k, hk, hreaction⟩ := Session.exists_hook_run hr
  have hinitial : (!k.fields.everSent) = true ↔ ¬ ToldSince run.component events := by
    rw [← h.everSent_iff hk]
    simp
  refine ⟨k, _, hk, hreaction, hinitial, ?_⟩
  rw [hinitial, not_iff_not]
  exact ⟨fun heq => heq.2, fun ht => ⟨ToldSince.told, ht⟩⟩

end Chronicle

/-! ### A page that is sent anew -/

namespace Session

/-- every component keeps as its model what its hook was told -/
def noting : Behaviour Bool Unit Unit where
  hook _ _ initial := .idle initial
  handle _ c _ := (.idle c.model, .ok ())
  setup _ s _ := (s, .ok ())

def notedPage : Session Bool Unit :=
  ((ofRoot ⟨"Page", .empty, false⟩ {} : Session Bool Unit).respond noting).1

/-- the page is listed in its response, and then a client asks for everything anew -/
theorem chronicle_notedPage :
    ∃ events, Chronicle FieldBag.Unsent Unit events notedPage.requestResync ∧ Told ⟨1⟩ events := by
  have hstart : Chronicle FieldBag.Unsent Unit _
      (ofRoot ⟨"Page", .empty, false⟩ {} : Session Bool Unit) :=
    .start {} (FieldBag.unsent_ofFields ∅)
  -- the message is kept in view, as the page is found in it
  obtain ⟨first, hmessage, hfirst⟩ : ∃ first : Response,
      first.message.changes.map FieldChange.component = [⟨1⟩] ∧
        (ofRoot ⟨"Page", .empty, false⟩ {} : Session Bool Unit).respond noting =
          (notedPage, .ok first) := ⟨_, rfl, rfl⟩
  have htells : (Event.committed ⟨first.message, notedPage.tree⟩ ((ofRoot ⟨"Page", .empty, false⟩ {} :
      Session Bool Unit).hookCalls noting)).Tells ⟨1⟩ := by
    show (⟨1⟩ : ComponentId) ∈ first.message.changes.map FieldChange.component
    rw [hmessage]
    exact List.mem_singleton.2 rfl
  exact ⟨_, (hstart.respond hfirst).step .resync, _, by simp, htells⟩

theorem hookRuns_notedPage : notedPage.requestResync.hookRuns noting =
    [⟨1, ⟨1⟩, .idle true⟩] := rfl

theorem initial_iff_page : ∃ events k initial,
    Chronicle FieldBag.Unsent Unit events notedPage.requestResync ∧
    notedPage.requestResync.tree.get? ⟨1⟩ = some k ∧
    (.idle true : Reaction Bool Unit) = noting.hook ⟨1⟩ k initial ∧
    Told ⟨1⟩ events ∧ (initial = true ↔ ¬ ToldSince ⟨1⟩ events) := by
  obtain ⟨events, hchr, htold⟩ := chronicle_notedPage
  have hruns : notedPage.requestResync.hookRuns noting = [] ++ ⟨1, ⟨1⟩, .idle true⟩ :: [] :=
    hookRuns_notedPage
  obtain ⟨k, initial, hk, hreaction, hinitial, -⟩ := hchr.initial_iff hruns
  exact ⟨events, k, initial, hchr, hk, hreaction, htold, hinitial⟩

/-- a component that was listed in a response can be told that it was never sent -/
theorem not_initial_iff_untold : ¬ ∀ (events : List (Event Bool)) (s : Session Bool Unit)
    (b : Behaviour Bool Unit Unit) (before after : List (HookRun Bool Unit))
    (run : HookRun Bool Unit), Chronicle FieldBag.Unsent Unit events s →
      s.hookRuns b = before ++ run :: after → ∃ k initial,
        s.tree.get? run.component = some k ∧
        run.reaction = b.hook run.component (Cascade.revised run.component before k) initial ∧
        (initial = true ↔ ¬ Told run.component events) := by
  intro hall
  obtain ⟨events, hchr, htold⟩ := chronicle_notedPage
  obtain ⟨k, initial, -, hreaction, hinitial⟩ :=
    hall events _ noting [] [] ⟨1, ⟨1⟩, .idle true⟩ hchr hookRuns_notedPage
  -- the page keeps what it was told, so it was told `true`
  have htrue : true = initial := congrArg Reaction.model hreaction
  exact hinitial.1 htrue.symm htold

end Session

end UiSync
