import UiSync.Proofs.Session.Chronicle
import UiSync.Proofs.Session.GivingUp

/-!
# What becomes of calls

The ledger of a component lists the calls that were queued for it, in order, each with what became
of it (`ledger`).  A call waits until the next response is written, or until its component leaves
the tree; calls of hooks go out with the response of their cascade, or are undone with it.

The responses carry the calls that were sent by the ledger, in its order and each of them once, and
the queue holds those that wait (`Chronicle.calls_sent_once`).
-/

namespace UiSync

variable {μ η σ : Type}

inductive Fate where
  | waiting
  | sent
  /-- its component left the tree while it waited -/
  | dropped
  /-- made by a hook whose response was given up -/
  | undone
  deriving DecidableEq

def settle (f : Fate) (calls : List (ClientCall × Fate)) : List (ClientCall × Fate) :=
  calls.map fun q => if q.2 = .waiting then (q.1, f) else q

def enter (id : ComponentId) (calls : List (ClientCall × Fate)) :
    Event μ → List (ClientCall × Fate)
  | .called call => calls ++ (callsTo id [call]).map (·, .waiting)
  | .detached _ removed => if id ∈ removed then settle .dropped calls else calls
  | .committed _ hookCalls => settle .sent calls ++ (callsTo id hookCalls).map (·, .sent)
  | .gaveUp hookCalls => calls ++ (callsTo id hookCalls).map (·, .undone)
  | .attached .. | .resynced _ => calls

/-- the calls that were queued for `id`, in order, each with its fate so far -/
def ledger (id : ComponentId) (events : List (Event μ)) : List (ClientCall × Fate) :=
  events.foldl (enter id) []

def withFate (f : Fate) (calls : List (ClientCall × Fate)) : List ClientCall :=
  (calls.filter fun q => q.2 = f).map Prod.fst

section

variable {f g : Fate} {id : ComponentId} {calls : List (ClientCall × Fate)}

theorem ledger_append_singleton (id : ComponentId) (events : List (Event μ)) (e : Event μ) :
    ledger id (events ++ [e]) = enter id (ledger id events) e := by
  rw [ledger, List.foldl_append]
  rfl

theorem withFate_append (f : Fate) (a b : List (ClientCall × Fate)) :
    withFate f (a ++ b) = withFate f a ++ withFate f b := by
  rw [withFate, List.filter_append, List.map_append]
  rfl

theorem withFate_cons_self (call : ClientCall) (calls : List (ClientCall × Fate)) :
    withFate f ((call, f) :: calls) = call :: withFate f calls := by
  simp only [withFate, List.filter_cons, decide_true, if_true, List.map_cons]

theorem withFate_cons_of_ne (h : g ≠ f) (call : ClientCall) (calls : List (ClientCall × Fate)) :
    withFate f ((call, g) :: calls) = withFate f calls := by
  simp only [withFate, List.filter_cons, h, decide_false, Bool.false_eq_true, if_false]

theorem withFate_eq_nil (h : ∀ q ∈ calls, q.2 ≠ f) : withFate f calls = [] := by
  rw [withFate, List.filter_eq_nil_iff.2 fun q hq he => h q hq (of_decide_eq_true he)]
  rfl

theorem withFate_map_self (f : Fate) (calls : List ClientCall) :
    withFate f (calls.map (·, f)) = calls := by
  induction calls with
  | nil => rfl
  | cons call calls ih => rw [List.map_cons, withFate_cons_self, ih]

theorem withFate_map_of_ne (h : g ≠ f) (calls : List ClientCall) :
    withFate f (calls.map (·, g)) = [] := by
  refine withFate_eq_nil fun q hq => ?_
  obtain ⟨call, -, rfl⟩ := List.mem_map.1 hq
  exact h

/-! ## Settling -/

theorem settle_cons_waiting (f : Fate) (call : ClientCall) (calls : List (ClientCall × Fate)) :
    settle f ((call, .waiting) :: calls) = (call, f) :: settle f calls := by
  rw [settle, List.map_cons, if_pos rfl]
  rfl

theorem settle_cons_of_ne (h : g ≠ .waiting) (call : ClientCall)
    (calls : List (ClientCall × Fate)) :
    settle f ((call, g) :: calls) = (call, g) :: settle f calls := by
  rw [settle, List.map_cons, if_neg h]
  rfl

theorem ne_waiting_of_mem_settle (hf : f ≠ .waiting) {q : ClientCall × Fate}
    (hq : q ∈ settle f calls) : q.2 ≠ .waiting := by
  obtain ⟨q₀, -, rfl⟩ := List.mem_map.1 hq
  split
  · exact hf
  · next h => exact h

/-- a fate that none of the settled calls gets -/
theorem withFate_settle_of_ne (hg : g ≠ .waiting) (h : f ≠ g) :
    withFate g (settle f calls) = withFate g calls := by
  induction calls with
  | nil => rfl
  | cons q calls ih =>
    obtain ⟨call, k⟩ := q
    by_cases hk : k = .waiting
    · subst hk
      rw [settle_cons_waiting, withFate_cons_of_ne h, withFate_cons_of_ne hg.symm, ih]
    · rw [settle_cons_of_ne hk]
      by_cases hkg : k = g
      · subst hkg
        rw [withFate_cons_self, withFate_cons_self, ih]
      · rw [withFate_cons_of_ne hkg, withFate_cons_of_ne hkg, ih]

/-- calls that wait were queued after all that were sent -/
def SentFirst (calls : List (ClientCall × Fate)) : Prop :=
  calls.Pairwise fun q q' => q.2 = .waiting → q'.2 ≠ .sent

/-- so they may be sent next without changing the order -/
theorem SentFirst.withFate_settle (h : SentFirst calls) :
    withFate .sent (settle .sent calls) = withFate .sent calls ++ withFate .waiting calls := by
  induction calls with
  | nil => rfl
  | cons q calls ih =>
    obtain ⟨call, k⟩ := q
    obtain ⟨hq, hrest⟩ := List.pairwise_cons.1 h
    by_cases hk : k = .waiting
    · subst hk
      have hnone : withFate .sent calls = [] := withFate_eq_nil fun q' hq' => hq q' hq' rfl
      rw [settle_cons_waiting, withFate_cons_self, ih hrest, withFate_cons_of_ne (by decide),
        withFate_cons_self, hnone, List.nil_append, List.nil_append]
    · rw [settle_cons_of_ne hk, withFate_cons_of_ne hk]
      by_cases hsent : k = .sent
      · subst hsent
        rw [withFate_cons_self, withFate_cons_self, ih hrest, List.cons_append]
      · rw [withFate_cons_of_ne hsent, withFate_cons_of_ne hsent, ih hrest]

theorem sentFirst_of_settled (h : ∀ q ∈ calls, q.2 ≠ .waiting) : SentFirst calls :=
  List.pairwise_of_forall_mem_list fun q hq _ _ hw => absurd hw (h q hq)

theorem SentFirst.append {more : List (ClientCall × Fate)} (h : SentFirst calls)
    (hmore : ∀ q ∈ more, q.2 ≠ .sent) : SentFirst (calls ++ more) :=
  List.pairwise_append.2 ⟨h, List.pairwise_of_forall_mem_list fun _ _ q' hq' _ => hmore q' hq',
    fun _ _ q' hq' _ => hmore q' hq'⟩

theorem SentFirst.enter (h : SentFirst calls) (id : ComponentId) (e : Event μ) :
    SentFirst (enter id calls e) := by
  have hmade : ∀ (f : Fate) (made : List ClientCall), ∀ q ∈ made.map (·, f), q.2 = f := by
    intro f made q hq
    obtain ⟨call, -, rfl⟩ := List.mem_map.1 hq
    rfl
  cases e with
  | called call =>
    refine h.append fun q hq he => ?_
    rw [hmade _ _ q hq] at he
    cases he
  | gaveUp hookCalls =>
    refine h.append fun q hq he => ?_
    rw [hmade _ _ q hq] at he
    cases he
  | detached x removed =>
    show SentFirst (if id ∈ removed then settle .dropped calls else calls)
    split
    · exact sentFirst_of_settled fun q hq => ne_waiting_of_mem_settle (by decide) hq
    · exact h
  | committed commit hookCalls =>
    refine sentFirst_of_settled fun q hq => ?_
    rcases List.mem_append.1 hq with hq | hq
    · exact ne_waiting_of_mem_settle (by decide) hq
    · rw [hmade _ _ q hq]
      decide
  | attached | resynced => exact h

theorem sentFirst_ledger (id : ComponentId) (events : List (Event μ)) :
    SentFirst (ledger id events) := by
  induction events using List.reverseRecOn with
  | nil => exact .nil
  | append_singleton events e ih =>
    rw [ledger_append_singleton]
    exact ih.enter id e

end

/-! ## The calls of one response -/

namespace Session

variable {b : Behaviour μ η σ} {s s' : Session μ η}

/-- a response carries what waits for a component, then what hooks made for it -/
theorem callsTo_response (hw : s.tree.WellFormed) (ht : s.Tidy) {response : Response}
    (hr : s.respond b = (s', .ok response)) (id : ComponentId) :
    callsTo id response.message.calls = s.calls.callsOf id ++ callsTo id (s.hookCalls b) := by
  obtain ⟨c, hc, -, hm⟩ := respond_ok hr
  have hcourse := course_of_finalize hc
  have hwc := hcourse.explained.shape.wellFormed hw
  have hcalls : c.calls.callsOf id = s.calls.callsOf id ++ callsTo id (s.hookCalls b) :=
    hcourse.explained.calls id
  have haddressed : c.calls.Addressed := hcourse.addressed ht.addressed
  rw [hm, ← hcalls]
  show callsTo id (c.calls.inOrder c.tree.preOrder) = _
  by_cases hid : c.tree.contains id = true
  · exact CallQueue.callsTo_inOrder haddressed hwc.nodup_preOrder ((hwc.mem_preOrder id).2 hid)
  -- nothing waits for a component that is not attached, so nothing is left out
  · have hnone : c.calls.callsOf id = [] := by
      rw [hcalls]
      refine List.append_eq_nil_iff.2 ⟨?_, callsTo_of_forall_ne fun call hcall he => hid ?_⟩
      · by_contra hne
        exact hid ((hcourse.explained.shape.contains id).trans (ht.calls id hne))
      · obtain ⟨run, hrun, hcall⟩ := List.mem_flatMap.1 hcall
        obtain ⟨k, -, rfl⟩ := List.mem_map.1 hcall
        have hcollected := (hcourse.explained.collected run.component).2 (.inr ⟨run, hrun, rfl⟩)
        exact he ▸ hcourse.known ht.known run.component (.inr hcollected)
    rw [CallQueue.callsTo_inOrder_of_notMem haddressed fun hm => hid ((hwc.mem_preOrder id).1 hm),
      hnone]

end Session

/-! ## The calls of all responses -/

namespace Chronicle

variable {new : FieldBag → Prop} {events : List (Event μ)} {s : Session μ η}

/-- one event more, and no response -/
theorem accounted_step {clears : Bool} {s s' : Session μ η} {es : List (Event μ)}
    (hs : Session.Step new clears s es s') {id : ComponentId}
    (hwait : s.calls.callsOf id = withFate .waiting (ledger id events)) :
    withFate .sent (ledger id (events ++ es)) = withFate .sent (ledger id events) ∧
      s'.calls.callsOf id = withFate .waiting (ledger id (events ++ es)) := by
  cases hs with
  | attach _ ha =>
    obtain ⟨t', -, rfl⟩ := Session.attach_ok ha
    rw [ledger_append_singleton]
    exact ⟨rfl, hwait⟩
  | @detach _ x removed t' ht hd =>
    obtain ⟨removed', t'', ht', rfl⟩ := Session.detach_ok hd
    rw [ht] at ht'
    obtain ⟨rfl, rfl⟩ := Prod.mk.inj (Except.ok.inj ht')
    rw [ledger_append_singleton]
    show withFate .sent (if id ∈ removed then _ else _) = _ ∧
      (s.calls.removeAll removed).callsOf id = withFate .waiting (if id ∈ removed then _ else _)
    by_cases hid : id ∈ removed
    · rw [if_pos hid, CallQueue.callsOf_removeAll_of_mem hid]
      refine ⟨withFate_settle_of_ne (by decide) (by decide), (withFate_eq_nil fun q hq => ?_).symm⟩
      exact ne_waiting_of_mem_settle (by decide) hq
    · rw [if_neg hid, CallQueue.callsOf_removeAll_of_notMem hid]
      exact ⟨rfl, hwait⟩
  | @call _ x interface method args hc =>
    rw [Session.call_ok hc, ledger_append_singleton]
    show withFate .sent (_ ++ _) = _ ∧
      (s.calls.push x interface method args).callsOf id = withFate .waiting (_ ++ _)
    rw [withFate_append, withFate_append, withFate_map_of_ne (by decide), withFate_map_self,
      List.append_nil, CallQueue.callsOf_push, hwait]
    exact ⟨rfl, rfl⟩
  | resync =>
    rw [ledger_append_singleton]
    exact ⟨rfl, hwait⟩
  | silent _ hsilent =>
    rw [List.append_nil, hsilent.calls]
    exact ⟨rfl, hwait⟩

theorem accounted (h : Chronicle new σ events s) (id : ComponentId) :
    callsTo id ((commits events).flatMap fun c => c.message.calls) =
        withFate .sent (ledger id events) ∧
      s.calls.callsOf id = withFate .waiting (ledger id events) := by
  induction h with
  | start config hroot => exact ⟨rfl, rfl⟩
  | step _ hs ih =>
    obtain ⟨hsent, hwait⟩ := ih
    obtain ⟨hsent', hwait'⟩ := accounted_step hs hwait
    rw [commits_append, hs.commits, List.append_nil, hsent']
    exact ⟨hsent, hwait'⟩
  | @respond events s s' b response h hr ih =>
    obtain ⟨hsent, hwait⟩ := ih
    obtain ⟨c, -, hs', -⟩ := Session.respond_ok hr
    rw [commits_append, List.flatMap_append, callsTo_append, hsent, ledger_append_singleton]
    show _ ++ callsTo id (response.message.calls ++ []) = withFate .sent (settle .sent _ ++ _) ∧
      _ = withFate .waiting (settle .sent _ ++ _)
    rw [List.append_nil, Session.callsTo_response h.wellFormed h.tables.tidy hr id, hwait,
      withFate_append, withFate_append, withFate_map_self, withFate_map_of_ne (by decide),
      (sentFirst_ledger id events).withFate_settle, List.append_assoc, List.append_nil]
    refine ⟨rfl, ?_⟩
    rw [withFate_eq_nil fun q hq => ne_waiting_of_mem_settle (by decide) hq, hs']
    rfl
  | @unanswered events s s' b e h hr ih =>
    obtain ⟨hsent, hwait⟩ := ih
    obtain ⟨c, hab⟩ := Session.abandoned_of_respond h.wellFormed hr
    rw [commits_append, ledger_append_singleton, hab.callsOf]
    show callsTo id ((commits events ++ []).flatMap _) = withFate .sent (_ ++ _) ∧
      _ = withFate .waiting (_ ++ _)
    rw [List.append_nil, withFate_append, withFate_append, withFate_map_of_ne (by decide),
      withFate_map_of_ne (by decide), List.append_nil, List.append_nil]
    exact ⟨hsent, hwait⟩

/-- The responses carry the calls that were sent by the ledger, each once and in order, and the
queue holds those that wait; in particular a response carries all that waits for a component. -/
theorem calls_sent_once (h : Chronicle new σ events s) (id : ComponentId) :
    callsTo id ((commits events).flatMap fun c => c.message.calls) =
        withFate .sent (ledger id events) ∧
      s.calls.callsOf id = withFate .waiting (ledger id events) ∧
      ∀ (b : Behaviour μ η σ) (s' : Session μ η) (response : Response),
        s.respond b = (s', .ok response) → s'.calls.callsOf id = [] ∧
          callsTo id response.message.calls = s.calls.callsOf id ++ callsTo id (s.hookCalls b) := by
  obtain ⟨hsent, hwait⟩ := h.accounted id
  refine ⟨hsent, hwait, fun b s' response hr => ⟨?_, ?_⟩⟩
  · obtain ⟨c, -, rfl, -⟩ := Session.respond_ok hr
    exact CallQueue.callsOf_empty id
  · exact Session.callsTo_response h.wellFormed h.tables.tidy hr id

end Chronicle

/-! ### A note that is called -/

namespace Session

/-- the page and its note, written after a response that was given up -/
def shown : Session Unit Unit := ((awaited.respond leaving).1.respond announcing).1

def blinking : Session Unit Unit :=
  { shown with calls := shown.calls.push ⟨2⟩ "View" "blink" [] }

theorem calls_sent_once_note : ∃ (events : List (Event Unit)) (s : Session Unit Unit),
    Chronicle FieldBag.Unsent Unit events s ∧
      (ledger ⟨2⟩ events).map Prod.snd = [.sent, .undone, .sent, .dropped] ∧
      (callsTo ⟨2⟩ ((commits events).flatMap fun c => c.message.calls)).map ClientCall.method =
        ["open", "appear"] ∧
      s.calls.callsOf ⟨2⟩ = [] := by
  have hleave : awaited.respond leaving =
      ((awaited.respond leaving).1, .error (.cascade (.structureChange ⟨2⟩))) := rfl
  obtain ⟨response, happear⟩ : ∃ response,
      (awaited.respond leaving).1.respond announcing = (shown, .ok response) := ⟨_, rfl⟩
  have hblink : shown.call ⟨2⟩ "View" "blink" [] = .ok blinking := rfl
  obtain ⟨t, ht⟩ : ∃ t, blinking.tree.detach ⟨2⟩ = .ok ([⟨2⟩], t) := ⟨_, rfl⟩
  obtain ⟨s, hs⟩ : ∃ s, blinking.detach ⟨2⟩ = .ok s := ⟨_, rfl⟩
  have hshown := (chronicle_awaited.unanswered hleave).respond happear
  have h := (hshown.step (.call hblink)).step (.detach ht hs)
  obtain ⟨hsent, hwait, -⟩ := h.calls_sent_once ⟨2⟩
  refine ⟨_, s, h, rfl, ?_, hwait⟩
  rw [hsent]
  rfl

end Session

end UiSync
