import UiSync.Proofs.Session.CallLedger

/-!
# The tables of a session

Whatever is done with a session, its tables have entries of attached components only
(`Session.Tables`).  So what was detached is out of reach for good: invocations find no handler
there, and no response mentions it (`Session.detached_for_good`).
-/

namespace UiSync

variable {μ η σ : Type}

namespace Session

variable {b : Behaviour μ η σ} {s s' s₁ s₂ : Session μ η}

/-! ## What responses mention -/

/-- the changes and calls of a response are of attached components -/
theorem Tables.response (h : s.Tables) {response : Response}
    (hr : s.respond b = (s', .ok response)) :
    (∀ change ∈ response.message.changes, s.tree.contains change.component = true) ∧
      ∀ call ∈ response.message.calls, s.tree.contains call.component = true := by
  obtain ⟨c, hc, -, hm⟩ := respond_ok hr
  have hcourse := course_of_finalize hc
  have hshape := hcourse.explained.shape
  have hwc := hshape.wellFormed h.wellFormed
  have hattached : ∀ id ∈ c.tree.preOrder, s.tree.contains id = true := fun id hid =>
    (hshape.contains id).symm.trans ((hwc.mem_preOrder id).1 hid)
  rw [hm]
  refine ⟨fun change hch => ?_, fun call hcall => ?_⟩
  · obtain ⟨id, hid, hof⟩ := List.mem_filterMap.1 hch
    obtain ⟨component, -, hdiff⟩ := Option.bind_eq_some_iff.1 hof
    obtain ⟨diff, -, rfl⟩ := Option.map_eq_some_iff.1 hdiff
    exact hattached id (List.mem_of_mem_filter hid)
  · obtain ⟨id, hid, hof⟩ := List.mem_flatMap.1 hcall
    rw [hcourse.addressed h.tidy.addressed id call hof]
    exact hattached id hid

/-- nothing is ever sent to, or delivered to, a component that is not attached -/
theorem Tables.unreachable (h : s.Tables) {x : ComponentId} (hx : s.tree.contains x = false) :
    (∀ (b : Behaviour μ η σ) call, call.component = x → s.guard.check call.sequence = .ok () →
      (s.deliver b call).2 = .error (.unknownTarget x call.interface)) ∧
    ∀ (b : Behaviour μ η σ) s' response, s.respond b = (s', .ok response) →
      (∀ change ∈ response.message.changes, change.component ≠ x) ∧
        ∀ call ∈ response.message.calls, call.component ≠ x := by
  refine ⟨?_, fun b s' response hr => ⟨fun change hch he => ?_, fun call hcall he => ?_⟩⟩
  · rintro b call rfl hcheck
    have hnone : ({ s with guard := s.guard.record call.sequence } : Session μ η).handlerFor? call =
        none := if_neg (by rw [hx]; exact Bool.false_ne_true)
    rw [deliver_passed hcheck, dispatch_of_handlerFor_none hnone]
  · have hc := (h.response hr).1 change hch
    rw [he, hx] at hc
    cases hc
  · have hc := (h.response hr).2 call hcall
    rw [he, hx] at hc
    cases hc

/-- in every session there is, the dirty set, the registry and the queue have entries of attached
components only; and from the moment a component is detached, with all that is below it,
invocations that pass the guard find no target there and no response mentions it -/
theorem detached_for_good {root : Component μ} {config : Config}
    (h : Evolves σ (ofRoot root config) s) :
    (∀ id, s.dirty.contains id = true → s.tree.contains id = true) ∧
    (∀ id, s.registry.handlers.contains id = true → s.tree.contains id = true) ∧
    (∀ id, s.calls.calls.contains id = true → s.tree.contains id = true) ∧
    ∀ c s₁ s₂, s.detach c = .ok s₁ → Evolves σ s₁ s₂ → ∀ x, s.tree.Under c x →
      (∀ (b : Behaviour μ η σ) call, call.component = x →
        s₂.guard.check call.sequence = .ok () →
          (s₂.deliver b call).2 = .error (.unknownTarget x call.interface)) ∧
      ∀ (b : Behaviour μ η σ) s₃ response, s₂.respond b = (s₃, .ok response) →
        (∀ change ∈ response.message.changes, change.component ≠ x) ∧
          ∀ call ∈ response.message.calls, call.component ≠ x := by
  have ht := h.tables
  refine ⟨ht.tidy.dirty, ht.registered, fun id hid => ?_, fun c s₁ s₂ hd hrest x hx => ?_⟩
  · exact ht.tidy.calls id (ht.occupied.contains_iff.1 hid)
  obtain ⟨ht₁, hlater₁⟩ := sound_detach hd ht
  obtain ⟨ht₂, hlater₂⟩ := hrest.sound ht₁
  obtain ⟨removed, t', hdt, rfl⟩ := detach_ok hd
  have hdet := ht.wellFormed.detached hdt
  obtain ⟨n, hn⟩ := Tree.contains_iff.1 (ht.wellFormed.contains_under hdet.attached hx)
  have hold : x.value < s.tree.nextId := ht.wellFormed.fresh x n hn
  have hgone : s₂.tree.contains x = false := by
    rw [Bool.eq_false_iff]
    intro hc
    -- were it attached again, it would have been so right after it was taken away
    have hc₁ := hlater₂.back x (lt_of_lt_of_le hold hlater₁.nextId) hc
    exact (hdet.contains hc₁).2 ((hdet.mem_removed x).2 hx)
  exact ht₂.unreachable hgone

/-! ### A badge that goes with its note -/

/-- the page and its note, with a badge below the note that answers for itself -/
def badged : Session Unit Unit :=
  match noted.attach ⟨2⟩ ⟨"Badge", .empty, ()⟩ with
  | .ok (_, s) => { s with registry := s.registry.register ⟨3⟩ "View" () }
  | .error _ => noted

/-- the page once the note was taken away and another one took its place -/
def replaced : Session Unit Unit :=
  match badged.detach ⟨2⟩ with
  | .error _ => badged
  | .ok s =>
    match s.attach ⟨1⟩ ⟨"Note", .empty, ()⟩ with
    | .ok (_, s) => s
    | .error _ => badged

theorem detached_for_good_badge :
    badged.registry.handlers.contains ⟨3⟩ = true ∧ badged.dirty.contains ⟨3⟩ = true ∧
    replaced.tree.preOrder = [⟨1⟩, ⟨4⟩] ∧ replaced.dirty.contains ⟨3⟩ = false ∧
    (replaced.deliver announcing ⟨⟨3⟩, "View", "press", [], .ofNat 0⟩).2 =
      .error (.unknownTarget ⟨3⟩ "View") ∧
    ∃ s response, replaced.respond announcing = (s, .ok response) ∧
      response.message.calls.map ClientCall.component = [⟨1⟩, ⟨1⟩, ⟨4⟩] ∧
      ∀ call ∈ response.message.calls, call.component ≠ ⟨3⟩ := by
  have hnote : (ofRoot ⟨"Page", .empty, ()⟩ {} : Session Unit Unit).attach ⟨1⟩
      ⟨"Note", .empty, ()⟩ = .ok (⟨2⟩, noted) := rfl
  obtain ⟨grown, hbadge, hregister⟩ : ∃ s : Session Unit Unit,
      noted.attach ⟨2⟩ ⟨"Badge", .empty, ()⟩ = .ok (⟨3⟩, s) ∧
        s.register ⟨3⟩ "View" () = .ok badged := ⟨_, rfl, rfl⟩
  obtain ⟨left, hdetach, hother⟩ : ∃ s : Session Unit Unit, badged.detach ⟨2⟩ = .ok s ∧
      s.attach ⟨1⟩ ⟨"Note", .empty, ()⟩ = .ok (⟨4⟩, replaced) := ⟨_, rfl, rfl⟩
  have hbadged : Evolves Unit (ofRoot ⟨"Page", .empty, ()⟩ {}) badged :=
    ((Evolves.attach hnote).trans (.attach hbadge)).trans (.register hregister)
  have hbelow : badged.tree.Under ⟨2⟩ ⟨3⟩ := .single (List.mem_singleton.2 rfl)
  obtain ⟨-, -, -, hgone⟩ := detached_for_good hbadged
  obtain ⟨hdeliver, hrespond⟩ := hgone ⟨2⟩ left replaced hdetach (.attach hother) ⟨3⟩ hbelow
  refine ⟨rfl, rfl, rfl, rfl, hdeliver announcing _ rfl rfl, ?_⟩
  obtain ⟨s, response, hr, hcalls⟩ : ∃ s response,
      replaced.respond announcing = (s, .ok response) ∧
        response.message.calls.map ClientCall.component = [⟨1⟩, ⟨1⟩, ⟨4⟩] := ⟨_, _, rfl, rfl⟩
  exact ⟨s, response, hr, hcalls, (hrespond announcing s response hr).2⟩

end Session

end UiSync
