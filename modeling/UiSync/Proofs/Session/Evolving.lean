import UiSync.Proofs.Session.Delivering
import UiSync.Proofs.Session.Tidy

/-!
# Everything that can be done with a session

`Session.Evolves s s'` says that `s` can become `s'` by operations, invocations, messages and
responses of any kind: handlers and hooks are arbitrary, components may have been sent elsewhere
before they are attached, and setups do what can be done with a session.

However a session evolves, the entries of its dirty set, its registry and its queue are of attached
components (`Session.Tables`), and identities never come back (`Tree.Later`).  This is shown for
each operation first (`Session.Sound`), and then for every run (`Session.Evolves.sound`).
-/

namespace UiSync

variable {μ η σ : Type}

/-! ## Keys of the queue and of the registry -/

namespace CallQueue

variable {q : CallQueue}

/-- no component has an entry without a call -/
def Occupied (q : CallQueue) : Prop := ∀ id, q.calls.get? id ≠ some []

theorem Occupied.contains_iff (h : q.Occupied) {id : ComponentId} :
    q.calls.contains id = true ↔ q.callsOf id ≠ [] := by
  have hid := h id
  rw [Dict.contains_iff, callsOf]
  cases hq : q.calls.get? id with
  | none => simp
  | some cs =>
    rw [hq, ne_eq, Option.some.injEq] at hid
    simp [hid]

theorem occupied_empty : (∅ : CallQueue).Occupied := by
  intro id h
  cases h

theorem Occupied.push (h : q.Occupied) (id : ComponentId) (interface method : String)
    (args : List Json.Value) : (q.push id interface method args).Occupied := by
  intro x
  by_cases hx : x = id
  · subst hx
    rw [CallQueue.push, Dict.get?_insert_self, ne_eq, Option.some.injEq]
    exact List.append_ne_nil_of_right_ne_nil _ (List.cons_ne_nil _ _)
  · rw [CallQueue.push, Dict.get?_insert_of_ne hx]
    exact h x

theorem calls_removeAll (ids : List ComponentId) (q : CallQueue) :
    (q.removeAll ids).calls = ids.foldl Dict.erase q.calls := by
  induction ids generalizing q with
  | nil => rfl
  | cons id ids ih => exact ih (q.removeComponent id)

theorem Occupied.removeAll (h : q.Occupied) (ids : List ComponentId) :
    (q.removeAll ids).Occupied := by
  intro x
  rw [calls_removeAll]
  by_cases hx : x ∈ ids
  · rw [Dict.get?_eraseAll_of_mem hx]
    intro he
    cases he
  · rw [Dict.get?_eraseAll_of_notMem hx]
    exact h x

theorem occupied_rollback (q : CallQueue) (c : Checkpoint) : (q.rollback c).Occupied := by
  intro x he
  rw [rollback, Dict.get?_filterMap] at he
  obtain ⟨cs, -, hkept⟩ := Option.bind_eq_some_iff.1 he
  dsimp only at hkept
  split at hkept
  · cases hkept
  · next hne =>
    rw [Option.some.inj hkept] at hne
    exact hne rfl

end CallQueue

namespace Registry

theorem handlers_removeAll (ids : List ComponentId) (r : Registry η) :
    (r.removeAll ids).handlers = ids.foldl Dict.erase r.handlers := by
  induction ids generalizing r with
  | nil => rfl
  | cons id ids ih => exact ih (r.removeComponent id)

theorem contains_removeAll {ids : List ComponentId} {r : Registry η} {x : ComponentId}
    (h : (r.removeAll ids).handlers.contains x = true) :
    r.handlers.contains x = true ∧ x ∉ ids := by
  rw [handlers_removeAll, Dict.contains] at h
  by_cases hx : x ∈ ids
  · rw [Dict.get?_eraseAll_of_mem hx] at h
    cases h
  · rw [Dict.get?_eraseAll_of_notMem hx] at h
    exact ⟨h, hx⟩

theorem contains_register {r : Registry η} {id x : ComponentId} {interface : String} {handler : η}
    (h : (r.register id interface handler).handlers.contains x = true) :
    x = id ∨ r.handlers.contains x = true := by
  by_cases hx : x = id
  · exact .inl hx
  · rw [register, Dict.contains, Dict.get?_insert_of_ne hx] at h
    exact .inr h

theorem contains_unregister (r : Registry η) (id x : ComponentId) (interface : String) :
    (r.unregister id interface).handlers.contains x = r.handlers.contains x := by
  rw [unregister, Dict.contains, Dict.contains]
  by_cases hx : x = id
  · subst hx
    rw [Dict.get?_modify_self, Option.isSome_map]
  · rw [Dict.get?_modify_of_ne hx]

end Registry

/-! ## Identities do not come back -/

namespace Tree

/-- `t'` is what became of `t`: identities go on from where they were, and an old one that is
attached was attached all along -/
structure Later (t t' : Tree μ) : Prop where
  nextId : t.nextId ≤ t'.nextId
  back : ∀ x, x.value < t.nextId → t'.contains x = true → t.contains x = true

variable {t t' t'' : Tree μ}

theorem Later.refl (t : Tree μ) : Later t t := ⟨le_refl _, fun _ _ h => h⟩

theorem Later.trans (h : Later t t') (h' : Later t' t'') : Later t t'' :=
  ⟨h.nextId.trans h'.nextId, fun x hx hc =>
    h.back x hx (h'.back x (lt_of_lt_of_le hx h.nextId) hc)⟩

theorem SameShape.later (h : SameShape t t') : Later t t' :=
  ⟨h.nextId.ge, fun x _ hc => (h.contains x).symm.trans hc⟩

theorem Attached.later {p id : ComponentId} {c : Component μ} {n : Node μ}
    (h : Attached t t' p id c n) : Later t t' := by
  refine ⟨h.nextId ▸ Nat.le_succ _, fun x hx hc => ?_⟩
  obtain ⟨m, hm⟩ := contains_iff.1 hc
  rcases h.cases hm with ⟨rfl, -⟩ | ⟨m₀, hm₀, -⟩
  · rw [h.idEq] at hx
    exact absurd hx (lt_irrefl _)
  · exact contains_iff.2 ⟨m₀, hm₀⟩

theorem Detached.later {removed : List ComponentId} {id : ComponentId}
    (h : Detached t t' removed id) : Later t t' :=
  ⟨h.nextId.ge, fun _ _ hc => (h.contains hc).1⟩

end Tree

/-! ## Everything that can be done with a session -/

/-- `s'` is what became of `s`, by operations of any kind; handlers and hooks are arbitrary, and
setups do what can be done with a session. The states between the invocations of one message are
there too, by `resync` and `deliver`; and the guard may be moved from outside -/
inductive Session.Evolves (σ : Type) : Session μ η → Session μ η → Prop
  | refl (s : Session μ η) : Evolves σ s s
  | trans {s₁ s₂ s₃ : Session μ η} : Evolves σ s₁ s₂ → Evolves σ s₂ s₃ → Evolves σ s₁ s₃
  | attach {s s' : Session μ η} {parent id : ComponentId} {c : Component μ} :
      s.attach parent c = .ok (id, s') → Evolves σ s s'
  | detach {s s' : Session μ η} {id : ComponentId} : s.detach id = .ok s' → Evolves σ s s'
  | update (s : Session μ η) (id : ComponentId) (f : Component μ → Component μ) :
      Evolves σ s (s.update id f)
  | mark (s : Session μ η) (id : ComponentId) : Evolves σ s (s.mark id)
  | clear (s : Session μ η) (id : ComponentId) : Evolves σ s (s.clear id)
  | register {s s' : Session μ η} {id : ComponentId} {interface : String} {handler : η} :
      s.register id interface handler = .ok s' → Evolves σ s s'
  | unregister (s : Session μ η) (id : ComponentId) (interface : String) :
      Evolves σ s (s.unregister id interface)
  | call {s s' : Session μ η} {id : ComponentId} {interface method : String}
      {args : List Json.Value} : s.call id interface method args = .ok s' → Evolves σ s s'
  | resync (s : Session μ η) : Evolves σ s s.requestResync
  | pass (s : Session μ η) (n : SequenceNumber) :
      Evolves σ s { s with guard := s.guard.record n }
  | deliver (s : Session μ η) {b : Behaviour μ η σ} (call : Invocation) :
      (∀ setup s id, Evolves σ s (b.setup setup s id).1) → Evolves σ s (s.deliver b call).1
  | receive (s : Session μ η) {b : Behaviour μ η σ} (m : ClientMessage) :
      (∀ setup s id, Evolves σ s (b.setup setup s id).1) → Evolves σ s (s.receive b m).1
  | respond (s : Session μ η) (b : Behaviour μ η σ) : Evolves σ s (s.respond b).1

/-- what is done with a component once it is attached can be done with every session -/
def Behaviour.Confined (b : Behaviour μ η σ) : Prop :=
  ∀ setup s id, Session.Evolves σ s (b.setup setup s id).1

namespace Session

variable {b : Behaviour μ η σ} {s s' s₁ s₂ : Session μ η}

/-- the entries of every table are of attached components -/
structure Tables (s : Session μ η) : Prop where
  wellFormed : s.tree.WellFormed
  tidy : s.Tidy
  occupied : s.calls.Occupied
  registered : ∀ id, s.registry.handlers.contains id = true → s.tree.contains id = true

theorem tables_ofRoot (root : Component μ) (config : Config) :
    (ofRoot root config : Session μ η).Tables :=
  ⟨Tree.wellFormed_ofRoot root, tidy_ofRoot root config, CallQueue.occupied_empty,
    fun _ h => by cases h⟩

/-! ### One operation -/

def Sound (s s' : Session μ η) : Prop := s.Tables → s'.Tables ∧ Tree.Later s.tree s'.tree

theorem Sound.refl (s : Session μ η) : Sound s s := fun h => ⟨h, .refl _⟩

theorem Sound.trans (h : Sound s s₁) (h' : Sound s₁ s₂) : Sound s s₂ := by
  intro ht
  obtain ⟨ht₁, hl⟩ := h ht
  obtain ⟨ht₂, hl'⟩ := h' ht₁
  exact ⟨ht₂, hl.trans hl'⟩

theorem sound_attach {parent id : ComponentId} {c : Component μ}
    (ha : s.attach parent c = .ok (id, s')) : Sound s s' := by
  intro h
  have htidy := h.tidy.attach h.wellFormed ha
  obtain ⟨t', ht, rfl⟩ := attach_ok ha
  obtain ⟨n, hn⟩ := h.wellFormed.attached ht
  exact ⟨⟨h.wellFormed.attach ht, htidy, h.occupied,
    fun x hx => hn.contains (h.registered x hx)⟩, hn.later⟩

theorem sound_detach {id : ComponentId} (hd : s.detach id = .ok s') : Sound s s' := by
  intro h
  have htidy := h.tidy.detach h.wellFormed hd
  obtain ⟨removed, t', ht, rfl⟩ := detach_ok hd
  have hdet := h.wellFormed.detached ht
  refine ⟨⟨hdet.wellFormed h.wellFormed, htidy, h.occupied.removeAll removed, fun x hx => ?_⟩,
    hdet.later⟩
  obtain ⟨hreg, hnot⟩ := Registry.contains_removeAll hx
  exact hdet.contains_of_notMem (h.registered x hreg) hnot

/-- an operation that leaves the structure of the tree alone -/
theorem sound_of_sameShape (hshape : Tree.SameShape s.tree s'.tree)
    (htidy : s.Tables → s'.Tidy) (hcalls : s.Tables → s'.calls.Occupied)
    (hreg : ∀ id, s'.registry.handlers.contains id = true →
      s.registry.handlers.contains id = true ∨ s.tree.contains id = true) : Sound s s' := by
  intro h
  refine ⟨⟨hshape.wellFormed h.wellFormed, htidy h, hcalls h, fun x hx => ?_⟩, hshape.later⟩
  exact (hshape.contains x).trans ((hreg x hx).elim (h.registered x) fun hc => hc)

theorem sound_update (s : Session μ η) (id : ComponentId) (f : Component μ → Component μ) :
    Sound s (s.update id f) :=
  sound_of_sameShape (Tree.sameShape_update ..)
    (fun h => h.tidy.edited (Tree.sameShape_update ..) rfl rfl) (fun h => h.occupied)
    fun _ hx => .inl hx

theorem sound_mark (s : Session μ η) (id : ComponentId) : Sound s (s.mark id) := by
  rcases mark_cases s id with he | he
  · rw [he]
    exact .refl s
  · have htidy : s.Tables → (s.mark id).Tidy := fun h => h.tidy.mark id
    rw [he] at htidy ⊢
    exact sound_of_sameShape (.refl _) htidy (fun h => h.occupied) fun _ hx => .inl hx

theorem sound_clear (s : Session μ η) (id : ComponentId) : Sound s (s.clear id) :=
  sound_of_sameShape (.refl _) (fun h => h.tidy.clear id) (fun h => h.occupied) fun _ hx => .inl hx

theorem sound_register {id : ComponentId} {interface : String} {handler : η}
    (hr : s.register id interface handler = .ok s') : Sound s s' := by
  have hid : s.tree.contains id = true := by
    unfold Session.register at hr
    split at hr
    · next hid => exact hid
    · cases hr
  rw [register_ok hr]
  refine sound_of_sameShape (.refl _) (fun h => h.tidy.edited (.refl _) rfl rfl)
    (fun h => h.occupied) fun x hx => ?_
  rcases Registry.contains_register hx with rfl | hx
  · exact .inr hid
  · exact .inl hx

theorem sound_unregister (s : Session μ η) (id : ComponentId) (interface : String) :
    Sound s (s.unregister id interface) :=
  sound_of_sameShape (.refl _) (fun h => h.tidy.edited (.refl _) rfl rfl) (fun h => h.occupied)
    fun x hx => .inl ((Registry.contains_unregister s.registry id x interface).symm.trans hx)

theorem sound_call {id : ComponentId} {interface method : String} {args : List Json.Value}
    (hc : s.call id interface method args = .ok s') : Sound s s' := by
  have htidy : s.Tables → s'.Tidy := fun h => h.tidy.call hc
  rw [call_ok hc] at htidy ⊢
  exact sound_of_sameShape (.refl _) htidy (fun h => h.occupied.push id interface method args)
    fun _ hx => .inl hx

theorem sound_resync (s : Session μ η) : Sound s s.requestResync :=
  sound_of_sameShape
    (Tree.sameShape_updateAll s.tree fun c => { c with fields := c.fields.forgetSent })
    (fun h => h.tidy.requestResync h.wellFormed) (fun h => h.occupied) fun _ hx => .inl hx

theorem sound_pass (s : Session μ η) (n : SequenceNumber) :
    Sound s { s with guard := s.guard.record n } :=
  sound_of_sameShape (.refl _) (fun h => h.tidy.edited (.refl _) rfl rfl) (fun h => h.occupied)
    fun _ hx => .inl hx

theorem sound_respond (s : Session μ η) (b : Behaviour μ η σ) : Sound s (s.respond b).1 := by
  intro h
  cases hr : s.respond b with
  | mk s' outcome =>
    cases outcome with
    | error e =>
      have htidy := h.tidy.unanswered h.wellFormed hr
      obtain ⟨c, hab⟩ := abandoned_of_respond h.wellFormed hr
      have hstate := hab.state
      refine sound_of_sameShape ?_ (fun _ => htidy) (fun _ => ?_) (fun x hx => .inl ?_) h
      · rw [hstate]
        exact hab.explained.shape
      · rw [hstate]
        exact CallQueue.occupied_rollback c.calls s.calls.checkpoint
      · rw [hstate] at hx
        exact hx
    | ok response =>
      have htidy := h.tidy.respond hr
      obtain ⟨c, hc, rfl, -⟩ := respond_ok hr
      have hshape := (course_of_finalize hc).explained.shape
      exact sound_of_sameShape (hshape.trans (sameShape_commitFields ..)) (fun _ => htidy)
        (fun _ => CallQueue.occupied_empty) (fun _ hx => .inl hx) h

theorem across_sound (hb : ∀ setup s id, Sound s (b.setup setup s id).1) : Across b Sound where
  refl := Sound.refl
  trans := Sound.trans
  edit s id edits model := sound_update s id _
  call := sound_call
  mark := sound_mark
  request handler c call q _ s := by
    rcases applyRequest_cases b s q with he | ⟨_, _, _, id, s', -, ha, he⟩ | ⟨_, s', -, hd, he⟩
    · rw [he]
      exact .refl s
    · rcases he with he | ⟨x, he⟩
      · rw [he]
        exact sound_attach ha
      · rw [he]
        exact (sound_attach ha).trans (hb x s' id)
    · rw [he]
      exact sound_detach hd

/-! ### Every run -/

theorem Evolves.sound (h : Evolves σ s s') : Sound s s' := by
  induction h with
  | refl s => exact .refl s
  | trans _ _ ih ih' => exact ih.trans ih'
  | attach ha => exact sound_attach ha
  | detach hd => exact sound_detach hd
  | update s id f => exact sound_update s id f
  | mark s id => exact sound_mark s id
  | clear s id => exact sound_clear s id
  | register hr => exact sound_register hr
  | unregister s id interface => exact sound_unregister s id interface
  | call hc => exact sound_call hc
  | resync s => exact sound_resync s
  | pass s n => exact sound_pass s n
  | deliver s call _ ih => exact (across_sound ih).deliver sound_pass s call
  | receive s m _ ih => exact (across_sound ih).receive sound_pass sound_resync s m
  | respond s b => exact sound_respond s b

theorem evolves_respond {answer : Except ResponseError Response}
    (h : s.respond b = (s', answer)) : Evolves σ s s' := by
  have hs := Evolves.respond s b
  rw [h] at hs
  exact hs

theorem Evolves.tables {root : Component μ} {config : Config}
    (h : Evolves σ (ofRoot root config) s) : s.Tables := (h.sound (tables_ofRoot root config)).1

theorem Act.evolves {clears : Bool} (h : Act clears s s') : Evolves σ s s' := by
  cases h with
  | attach _ ha => exact .attach ha
  | detach hd => exact .detach hd
  | edit id edits model => exact .update s id _
  | mark id => exact .mark s id
  | clear id _ => exact .clear s id
  | call hc => exact .call hc
  | register hr => exact .register hr
  | unregister id interface => exact .unregister s id interface
  | resync => exact .resync s
  | pass n => exact .pass s n

end Session

end UiSync
