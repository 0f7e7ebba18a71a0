import UiSync.Proofs.Transaction.Exclusion

/-!
# Sessions do not interfere

Calls for any number of sessions reach one server in any order (`Server.answerAll`).  Of the whole
server, a call reads and changes nothing but the context of its own session: its answer and the
context it leaves are those of that session served alone (`Server.Serves`, `Server.serves_answer`).

So the answers to the calls of one session, and its context in the end, are those of a fresh server
that gets these calls only (`Server.isolated_answerAll`).  The keys of contexts differ between the
two servers, which is why contexts are compared and keys are not.
-/

namespace UiSync

variable {μ η σ ℓ ω α : Type}

/-! ## Calls -/

inductive ServerCall where
  | request (thread : ThreadId) (patience : Patience) (session : SessionId) (payload : Json.Bytes)
  | endSession (session : SessionId)

def ServerCall.session : ServerCall → SessionId
  | request _ _ session _ => session
  | endSession session => session

inductive ServerAnswer where
  | reply (reply : Reply)
  /-- whether there was such a session -/
  | ended (existed : Bool)

/-! ## One session alone -/

structure Context.Idle (c : Context (Session μ η) ℓ) : Prop where
  holder : c.holder = none
  current : c.current = none
  listeners : c.listeners = []

namespace Context

theorem idle_ofUi (id : SessionId) (ui : Session μ η) :
    (ofUi id ui : Context (Session μ η) ℓ).Idle := ⟨rfl, rfl, rfl⟩

/-- the context after work on its session that nobody listened to -/
def worked (c : Context (Session μ η) ℓ) (f : Session μ η → Session μ η × α) :
    Context (Session μ η) ℓ :=
  { c with ui := (f c.ui).1, requests := c.requests + 1 }

variable {c : Context (Session μ η) ℓ}

theorem Idle.worked (h : c.Idle) (f : Session μ η → Session μ η × α) : (c.worked f).Idle :=
  ⟨h.holder, h.current, h.listeners⟩

theorem Idle.admission (h : c.Idle) (thread : ThreadId) (patience : Patience) :
    c.admission thread patience = .free := by
  refine admission_eq_free_iff.2 ⟨fun hh => ?_, h.current⟩
  rw [h.holder] at hh
  cases hh

theorem Idle.transact (h : c.Idle) (hooks : Hooks ℓ ω) (thread : ThreadId) (w : ω)
    (f : Session μ η → Session μ η × α) : c.transact hooks thread w f =
      (w, c.worked f, (f c.ui).2, ⟨⟨c.id, c.requests + 1⟩, []⟩) := by
  obtain ⟨id, ui, holder, current, listeners, requests⟩ := c
  obtain ⟨rfl, rfl, rfl⟩ := h
  rfl

end Context

/-- what a call does to the context of its session, which a request builds when there is none, and
what it is answered; `config` and `site` are those of the server -/
def ServerCall.serve (site : Site μ η σ ℓ ω) (config : Config)
    (c : Option (Context (Session μ η) ℓ)) :
    ServerCall → Option (Context (Session μ η) ℓ) × ServerAnswer
  | endSession _ => (none, .ended c.isSome)
  | request _ _ id payload =>
    match ClientMessage.decode payload with
    | .error e => (c, .reply (.failed (.undecodable e)))
    | .ok m =>
      let c := c.getD (Context.ofUi id (site.build id config))
      let work := Server.exchange site.behaviour m
      (some (c.worked work),
        .reply (Server.replyOf (.done (work c.ui).2 ⟨⟨c.id, c.requests + 1⟩, []⟩)))

def ServerCall.serveAll (site : Site μ η σ ℓ ω) (config : Config)
    (c : Option (Context (Session μ η) ℓ)) :
    List ServerCall → Option (Context (Session μ η) ℓ) × List (SessionId × ServerAnswer)
  | [] => (c, [])
  | call :: calls =>
    match call.serve site config c with
    | (c, answer) =>
      match serveAll site config c calls with
      | (c, answers) => (c, (call.session, answer) :: answers)

theorem Server.replyOf_done_ne_waiting (result : InvocationReport × Except ResponseError Response)
    (report : TransactionReport) : replyOf (.done result report) ≠ .waiting := by
  obtain ⟨invocations, response⟩ := result
  cases response <;> exact fun h => by cases h

theorem ServerCall.serve_ne_waiting (site : Site μ η σ ℓ ω) (config : Config)
    (c : Option (Context (Session μ η) ℓ)) (call : ServerCall) :
    (call.serve site config c).2 ≠ .reply .waiting := by
  cases call with
  | endSession id =>
    intro h
    cases h
  | request thread patience id payload =>
    cases hm : ClientMessage.decode payload with
    | error e =>
      simp only [serve, hm]
      intro h
      cases h
    | ok m =>
      simp only [serve, hm]
      exact fun h => Server.replyOf_done_ne_waiting _ _ (ServerAnswer.reply.inj h)

/-! ## All sessions of a server -/

namespace Server

/-- the context of a session, whatever its key is -/
def contextOf (s : Server μ η ℓ) (id : SessionId) : Option (Context (Session μ η) ℓ) :=
  (s.context? id).map Prod.snd

def answer (site : Site μ η σ ℓ ω) (s : Server μ η ℓ) (w : ω) :
    ServerCall → ω × Server μ η ℓ × ServerAnswer
  | .endSession id => (w, s.endSession id, .ended (s.contains id))
  | .request thread patience id payload =>
    match s.request site w thread patience id payload with
    | (w, s, reply) => (w, s, .reply reply)

/-- answers calls one after the other; an answer goes to the session of its call -/
def answerAll (site : Site μ η σ ℓ ω) (s : Server μ η ℓ) (w : ω) :
    List ServerCall → ω × Server μ η ℓ × List (SessionId × ServerAnswer)
  | [] => (w, s, [])
  | call :: calls =>
    match s.answer site w call with
    | (w, s, answer) =>
      match s.answerAll site w calls with
      | (w, s, answers) => (w, s, (call.session, answer) :: answers)

/-- the table of a server between calls: every session has a context of its own, which is idle -/
structure Orderly (s : Server μ η ℓ) : Prop where
  known : ∀ id key, s.sessions.get? id = some key → ∃ c, s.contexts.get? key = some c ∧ c.Idle
  own : ∀ id id' key, s.sessions.get? id = some key → s.sessions.get? id' = some key → id = id'
  older : ∀ id key, s.sessions.get? id = some key → key ≤ s.lastKey

theorem orderly_ofConfig (config : Config) : (ofConfig config : Server μ η ℓ).Orderly :=
  ⟨fun _ _ h => (by cases h), fun _ _ _ h => (by cases h), fun _ _ h => (by cases h)⟩

section

variable {s s' : Server μ η ℓ} {id : SessionId} {key : Nat} {c c' : Context (Session μ η) ℓ}

/-! ### Look-ups -/

theorem contextOf_eq_some (hid : s.sessions.get? id = some key) (hc : s.contexts.get? key = some c) :
    s.contextOf id = some c := by
  rw [contextOf, context?_eq_some_iff.2 ⟨hid, hc⟩]
  rfl

theorem contextOf_eq_none (hid : s.sessions.get? id = none) : s.contextOf id = none := by
  rw [contextOf, context?, hid]
  rfl

/-- look-ups that agree find the same context -/
theorem contextOf_congr (hsession : s'.sessions.get? id = s.sessions.get? id)
    (hcontext : ∀ key, s.sessions.get? id = some key →
      s'.contexts.get? key = s.contexts.get? key) : s'.contextOf id = s.contextOf id := by
  rw [contextOf, contextOf, context?, context?, hsession]
  cases hid : s.sessions.get? id with
  | none => rfl
  | some key => simp only [Option.bind_some, hcontext key hid]

theorem Orderly.contains_eq (h : s.Orderly) (id : SessionId) :
    s.contains id = (s.contextOf id).isSome := by
  rw [contains, Dict.contains]
  cases hid : s.sessions.get? id with
  | none =>
    rw [contextOf_eq_none hid]
    rfl
  | some key =>
    obtain ⟨c, hc, -⟩ := h.known id key hid
    rw [contextOf_eq_some hid hc]
    rfl

/-! ### What the operations on the table do -/

/-- `s'` is `s` with another context for one session, perhaps a first one, or with none -/
structure Swaps (id : SessionId) (c : Option (Context (Session μ η) ℓ)) (s s' : Server μ η ℓ) :
    Prop where
  orderly : s'.Orderly
  config : s'.config = s.config
  self : s'.contextOf id = c
  others : ∀ other, other ≠ id → s'.contextOf other = s.contextOf other

theorem Orderly.swaps_self (h : s.Orderly) (id : SessionId) : Swaps id (s.contextOf id) s s :=
  ⟨h, rfl, rfl, fun _ _ => rfl⟩

theorem Swaps.trans {s'' : Server μ η ℓ} {d d' : Option (Context (Session μ η) ℓ)}
    (h : Swaps id d s s') (h' : Swaps id d' s' s'') : Swaps id d' s s'' :=
  ⟨h'.orderly, h'.config.trans h.config, h'.self,
    fun other ho => (h'.others other ho).trans (h.others other ho)⟩

theorem Orderly.endSession (h : s.Orderly) (id : SessionId) : Swaps id none s (s.endSession id) := by
  have hkept : ∀ other key, (s.endSession id).sessions.get? other = some key →
      s.sessions.get? other = some key := by
    intro other key hk
    by_cases ho : other = id
    · rw [ho, Server.endSession, Dict.get?_erase_self] at hk
      cases hk
    · rwa [Server.endSession, Dict.get?_erase_of_ne ho] at hk
  refine ⟨⟨fun other key hk => h.known other key (hkept other key hk),
    fun other other' key hk hk' => h.own other other' key (hkept _ _ hk) (hkept _ _ hk'),
    fun other key hk => h.older other key (hkept other key hk)⟩, rfl, ?_, fun other ho => ?_⟩
  · exact contextOf_eq_none (Dict.get?_erase_self ..)
  · exact contextOf_congr (Dict.get?_erase_of_ne ho _) fun _ _ => rfl

theorem Orderly.setContext (h : s.Orderly) (hid : s.sessions.get? id = some key) (hc : c.Idle) :
    Swaps id (some c) s (s.setContext key c) := by
  -- no other session has this key
  have hothers : ∀ other key', other ≠ id → s.sessions.get? other = some key' → key' ≠ key := by
    rintro other key' ho hk rfl
    exact ho (h.own other id key' hk hid)
  refine ⟨⟨fun other key' hk => ?_, h.own, h.older⟩, rfl, ?_, fun other ho => ?_⟩
  · by_cases hkey : key' = key
    · rw [hkey]
      exact ⟨c, Dict.get?_insert_self .., hc⟩
    · obtain ⟨d, hd, hidle⟩ := h.known other key' hk
      exact ⟨d, (Dict.get?_insert_of_ne hkey ..).trans hd, hidle⟩
  · exact contextOf_eq_some hid (Dict.get?_insert_self ..)
  · exact contextOf_congr rfl fun key' hk => Dict.get?_insert_of_ne (hothers other key' ho hk) ..

theorem Orderly.create (h : s.Orderly) (site : Site μ η σ ℓ ω) (id : SessionId) :
    Swaps id (some (Context.ofUi id (site.build id s.config))) s (s.create site id).2.2 := by
  -- the key is a new one, and a session that had another key keeps it
  have hold : ∀ other key, other ≠ id → (s.create site id).2.2.sessions.get? other = some key →
      s.sessions.get? other = some key ∧ key ≤ s.lastKey ∧ key ≠ s.lastKey + 1 := by
    intro other key ho hk
    have hbefore : s.sessions.get? other = some key := by
      rwa [Server.create, Dict.get?_insert_of_ne ho] at hk
    have hle := h.older other key hbefore
    exact ⟨hbefore, hle, by omega⟩
  have hnew : (s.create site id).2.2.sessions.get? id = some (s.lastKey + 1) :=
    Dict.get?_insert_self ..
  have hcontext : (s.create site id).2.2.contexts.get? (s.lastKey + 1) =
      some (Context.ofUi id (site.build id s.config)) := Dict.get?_insert_self ..
  refine ⟨⟨fun other key hk => ?_, fun other other' key hk hk' => ?_, fun other key hk => ?_⟩, rfl,
    contextOf_eq_some hnew hcontext, fun other ho => ?_⟩
  · by_cases ho : other = id
    · rw [ho, hnew] at hk
      obtain rfl := Option.some.inj hk
      exact ⟨_, hcontext, Context.idle_ofUi ..⟩
    · obtain ⟨hbefore, -, hne⟩ := hold other key ho hk
      obtain ⟨c, hc, hidle⟩ := h.known other key hbefore
      exact ⟨c, (Dict.get?_insert_of_ne hne ..).trans hc, hidle⟩
  · by_cases ho : other = id
    · by_cases ho' : other' = id
      · exact ho.trans ho'.symm
      · rw [ho, hnew] at hk
        exact absurd (Option.some.inj hk).symm (hold other' key ho' hk').2.2
    · by_cases ho' : other' = id
      · rw [ho', hnew] at hk'
        exact absurd (Option.some.inj hk').symm (hold other key ho hk).2.2
      · exact h.own other other' key (hold other key ho hk).1 (hold other' key ho' hk').1
  · by_cases ho : other = id
    · rw [ho, hnew] at hk
      obtain rfl := Option.some.inj hk
      exact le_refl _
    · exact (hold other key ho hk).2.1.trans (Nat.le_succ _)
  · refine contextOf_congr (Dict.get?_insert_of_ne ho ..) fun key hk => ?_
    have hle := h.older other key hk
    exact Dict.get?_insert_of_ne (by omega) ..

/-- the context of a session, built or found, stands in the table -/
theorem Orderly.context (h : s.Orderly) (site : Site μ η σ ℓ ω) (id : SessionId) :
    ∃ key c s', s.context site id = (key, c, s') ∧
      c = (s.contextOf id).getD (Context.ofUi id (site.build id s.config)) ∧ c.Idle ∧
      s'.sessions.get? id = some key ∧ Swaps id (some c) s s' := by
  cases hid : s.sessions.get? id with
  | some key =>
    obtain ⟨c, hc, hidle⟩ := h.known id key hid
    have hself := contextOf_eq_some hid hc
    refine ⟨key, c, s, ?_, ?_, hidle, hid, ?_⟩
    · exact context_of_context? site (context?_eq_some_iff.2 ⟨hid, hc⟩)
    · rw [hself]
      rfl
    · have hswaps := h.swaps_self id
      rwa [hself] at hswaps
  | none =>
    have hnone : s.context? id = none := by
      rw [context?, hid]
      rfl
    refine ⟨_, _, (s.create site id).2.2, ?_, ?_, Context.idle_ofUi id (site.build id s.config),
      Dict.get?_insert_self .., h.create site id⟩
    · rw [Server.context, hnone]
      rfl
    · rw [contextOf_eq_none hid]
      rfl

/-! ### One call -/

/-- the server answers the call as its session would alone, and leaves the others as they are -/
structure Serves (site : Site μ η σ ℓ ω) (call : ServerCall) (s : Server μ η ℓ) (w : ω)
    (outcome : ω × Server μ η ℓ × ServerAnswer) : Prop where
  world : outcome.1 = w
  swaps : Swaps call.session (call.serve site s.config (s.contextOf call.session)).1 s outcome.2.1
  answer : outcome.2.2 = (call.serve site s.config (s.contextOf call.session)).2

theorem serves_answer (site : Site μ η σ ℓ ω) (h : s.Orderly) (w : ω) (call : ServerCall) :
    Serves site call s w (s.answer site w call) := by
  cases call with
  | endSession id => exact ⟨rfl, h.endSession id, congrArg _ (h.contains_eq id)⟩
  | request thread patience id payload =>
    simp only [Server.answer, request]
    cases hm : ClientMessage.decode payload with
    | error e =>
      refine ⟨rfl, ?_, ?_⟩
      · simp only [ServerCall.serve, hm]
        exact h.swaps_self id
      · simp only [ServerCall.serve, hm]
    | ok m =>
      obtain ⟨key, c, s', hcontext, hc, hidle, hid, hswaps⟩ := h.context site id
      simp only [transact, hcontext, hidle.admission, hidle.transact]
      refine ⟨rfl, ?_, ?_⟩
      · simp only [ServerCall.serve, hm, ServerCall.session, ← hc]
        exact hswaps.trans (hswaps.orderly.setContext hid (hidle.worked _))
      · simp only [ServerCall.serve, hm, ServerCall.session, ← hc]

/-! ### Many calls -/

/-- the answers to a session and its context in the end are those of its own calls -/
theorem answerAll_eq_serveAll (site : Site μ η σ ℓ ω) (h : s.Orderly) (w : ω)
    (calls : List ServerCall) (id : SessionId) :
    (s.answerAll site w calls).2.2.filter (fun a => a.1 = id) =
        (ServerCall.serveAll site s.config (s.contextOf id)
          (calls.filter fun call => call.session = id)).2 ∧
      (s.answerAll site w calls).2.1.contextOf id =
        (ServerCall.serveAll site s.config (s.contextOf id)
          (calls.filter fun call => call.session = id)).1 := by
  induction calls generalizing s w with
  | nil => exact ⟨rfl, rfl⟩
  | cons call calls ih =>
    obtain ⟨-, hswaps, hanswer⟩ := serves_answer site h w call
    obtain ⟨hanswers, hcontext⟩ := ih hswaps.orderly (s.answer site w call).1
    rw [hswaps.config] at hanswers hcontext
    by_cases hid : call.session = id
    · subst hid
      rw [hswaps.self] at hanswers hcontext
      rw [List.filter_cons_of_pos (by simp)]
      refine ⟨?_, hcontext⟩
      show List.filter _ ((call.session, (s.answer site w call).2.2) :: _) = _ :: _
      rw [List.filter_cons_of_pos (by simp), hanswer]
      exact congrArg _ hanswers
    · rw [hswaps.others id fun he => hid he.symm] at hanswers hcontext
      rw [List.filter_cons_of_neg (by simpa using hid)]
      refine ⟨?_, hcontext⟩
      show List.filter _ ((call.session, (s.answer site w call).2.2) :: _) = _
      rw [List.filter_cons_of_neg (by simpa using hid)]
      exact hanswers

theorem map_fst_answerAll (site : Site μ η σ ℓ ω) (s : Server μ η ℓ) (w : ω)
    (calls : List ServerCall) :
    (s.answerAll site w calls).2.2.map Prod.fst = calls.map ServerCall.session := by
  induction calls generalizing s w with
  | nil => rfl
  | cons call calls ih => exact congrArg (call.session :: ·) (ih ..)

theorem answerAll_ne_waiting (site : Site μ η σ ℓ ω) (h : s.Orderly) (w : ω)
    (calls : List ServerCall) :
    ∀ a ∈ (s.answerAll site w calls).2.2, a.2 ≠ .reply .waiting := by
  induction calls generalizing s w with
  | nil => exact fun a ha => absurd ha List.not_mem_nil
  | cons call calls ih =>
    obtain ⟨-, hswaps, hanswer⟩ := serves_answer site h w call
    intro a ha
    rcases List.mem_cons.1 ha with rfl | ha
    · show (s.answer site w call).2.2 ≠ _
      rw [hanswer]
      exact call.serve_ne_waiting site s.config _
    · exact ih hswaps.orderly _ a ha

end

/-- a session among others is served as on a server of its own; what listeners share is given to the
two servers apart, as nobody listens -/
structure Isolated (site : Site μ η σ ℓ ω) (config : Config) (w w' : ω) (calls : List ServerCall)
    (id : SessionId) : Prop where
  answers : ((ofConfig config).answerAll site w calls).2.2.filter (fun a => a.1 = id) =
    ((ofConfig config).answerAll site w' (calls.filter fun call => call.session = id)).2.2
  context : ((ofConfig config).answerAll site w calls).2.1.contextOf id =
    ((ofConfig config).answerAll site w'
      (calls.filter fun call => call.session = id)).2.1.contextOf id
  /-- every call is answered at once -/
  answered : ∀ a ∈ ((ofConfig config).answerAll site w calls).2.2, a.2 ≠ .reply .waiting

/-- Whatever calls of other sessions come in between, a session gets the answers it would get on a
fresh server that none of them reached. -/
theorem isolated_answerAll (site : Site μ η σ ℓ ω) (config : Config) (w w' : ω)
    (calls : List ServerCall) (id : SessionId) : Isolated site config w w' calls id := by
  have hnew : (ofConfig config : Server μ η ℓ).Orderly := orderly_ofConfig config
  obtain ⟨hanswers, hcontext⟩ := answerAll_eq_serveAll site hnew w calls id
  obtain ⟨hanswers', hcontext'⟩ :=
    answerAll_eq_serveAll site hnew w' (calls.filter fun call => call.session = id) id
  rw [List.filter_filter] at hanswers' hcontext'
  simp only [Bool.and_self] at hanswers' hcontext'
  -- the server of its own answers to no other session
  have hown : ((ofConfig config).answerAll site w'
      (calls.filter fun call => call.session = id)).2.2.filter (fun a => a.1 = id) =
      ((ofConfig config).answerAll site w'
        (calls.filter fun call => call.session = id)).2.2 := by
    refine List.filter_eq_self.2 fun a ha => ?_
    have hsession := List.mem_map_of_mem (f := Prod.fst) ha
    rw [map_fst_answerAll] at hsession
    obtain ⟨call, hcall, he⟩ := List.mem_map.1 hsession
    rw [← he]
    exact (List.mem_filter.1 hcall).2
  refine ⟨?_, hcontext.trans hcontext'.symm, answerAll_ne_waiting site hnew w calls⟩
  rw [hanswers, ← hanswers', hown]

end Server

end UiSync
