import UiSync.Proofs.Session.Contents
import UiSync.Proofs.Session.GivingUp

/-!
# Numbers of responses and versions of components

The responses of a history are numbered 0, 1, 2, ... on the circle of sequence numbers, and the
changes of one component carry the versions 1, 2, 3, ... in order (`History.numbering`).  A version is
announced before the fields are committed and counted when they are; hooks, edits, failed responses
and requests for everything anew leave it alone (`Tree.KeepsVersions`), so the two agree.

Histories also cover setups that write responses themselves (`Session.Continues.receive`).
-/

namespace UiSync

variable {μ η σ : Type}

/-! ## Versions that were sent -/

def versionsIn (id : ComponentId) (m : ServerMessage) : List Nat :=
  (m.changes.filter fun change => change.component = id).map FieldChange.version

def versionsOf (id : ComponentId) (log : List (Commit μ)) : List Nat :=
  log.flatMap fun c => versionsIn id c.message

theorem versionsOf_append_singleton (id : ComponentId) (log : List (Commit μ)) (c : Commit μ) :
    versionsOf id (log ++ [c]) = versionsOf id log ++ versionsIn id c.message := by
  simp [versionsOf]

/-! ## What leaves versions alone -/

namespace Tree

/-- components have the versions they had, and new ones begin at 0 -/
structure KeepsVersions (t t' : Tree μ) : Prop where
  nextId : t.nextId ≤ t'.nextId
  version : ∀ id k', t'.get? id = some k' →
    (∃ k, t.get? id = some k ∧ k'.fields.version = k.fields.version) ∨
      t.nextId ≤ id.value ∧ k'.fields.version = 0

variable {t t' t'' : Tree μ}

theorem KeepsVersions.refl (t : Tree μ) : KeepsVersions t t :=
  ⟨le_refl _, fun _ k hk => .inl ⟨k, hk, rfl⟩⟩

theorem KeepsVersions.trans (h : KeepsVersions t t') (h' : KeepsVersions t' t'') :
    KeepsVersions t t'' := by
  refine ⟨h.nextId.trans h'.nextId, fun id k'' hk'' => ?_⟩
  rcases h'.version id k'' hk'' with ⟨k', hk', he'⟩ | ⟨hnew, hzero⟩
  · rcases h.version id k' hk' with ⟨k, hk, he⟩ | ⟨hnew, hzero⟩
    · exact .inl ⟨k, hk, he'.trans he⟩
    · exact .inr ⟨hnew, he'.trans hzero⟩
  · exact .inr ⟨h.nextId.trans hnew, hzero⟩

theorem keepsVersions_of_map {f : ComponentId → Component μ → Component μ}
    (hget : ∀ id, t'.get? id = (t.get? id).map (f id)) (hn : t'.nextId = t.nextId)
    (hf : ∀ id k, (f id k).fields.version = k.fields.version) : KeepsVersions t t' := by
  refine ⟨hn.ge, fun id k' hk' => ?_⟩
  rw [hget] at hk'
  obtain ⟨k, hk, rfl⟩ := Option.map_eq_some_iff.1 hk'
  exact .inl ⟨k, hk, hf id k⟩

theorem keepsVersions_update (t : Tree μ) (id : ComponentId) (edits : List Edit) (model : μ) :
    KeepsVersions t (t.update id (Component.revise edits model)) := by
  refine ⟨le_refl _, fun x k' hk' => ?_⟩
  rcases get?_update_cases hk' with hk | ⟨k, hk, rfl⟩
  · exact .inl ⟨k', hk, rfl⟩
  · exact .inl ⟨k, hk, FieldBag.version_edits edits k.fields⟩

theorem Attached.keepsVersions {p id : ComponentId} {c : Component μ} {n : Node μ}
    (h : Attached t t' p id c n) (hc : c.fields.Unsent) : KeepsVersions t t' := by
  refine ⟨h.nextId ▸ Nat.le_succ _, fun x k' hk' => ?_⟩
  obtain ⟨m, hm, rfl⟩ := get?_eq_some_iff.1 hk'
  rcases h.cases hm with ⟨rfl, rfl⟩ | ⟨m₀, hm₀, hcomp, -⟩
  · refine .inr ⟨?_, hc.version⟩
    rw [h.idEq]
  · rw [hcomp]
    exact .inl ⟨m₀.component, get?_eq_some_iff.2 ⟨m₀, hm₀, rfl⟩, rfl⟩

theorem Detached.keepsVersions {removed : List ComponentId} {id : ComponentId}
    (h : Detached t t' removed id) : KeepsVersions t t' :=
  ⟨h.nextId.ge, fun _ k hk => .inl ⟨k, h.get? hk, rfl⟩⟩

end Tree

theorem Cascade.Explained.keepsVersions {c d : Cascade μ} {runs : List (HookRun μ σ)}
    (h : Cascade.Explained c runs d) : Tree.KeepsVersions c.tree d.tree :=
  Tree.keepsVersions_of_map h.components h.shape.nextId fun id k =>
    Component.version_revised id runs k

namespace Session

variable {b : Behaviour μ η σ} {s s' : Session μ η} {c : Cascade μ} {clears : Bool}

theorem Act.keepsVersions (hw : s.tree.WellFormed) (ha : Act clears s s') :
    Tree.KeepsVersions s.tree s'.tree := by
  cases ha with
  | attach hc ha =>
    obtain ⟨t', ht, rfl⟩ := attach_ok ha
    obtain ⟨n, hn⟩ := hw.attached ht
    exact hn.keepsVersions hc
  | detach hd =>
    obtain ⟨removed, t', ht, rfl⟩ := detach_ok hd
    exact (hw.detached ht).keepsVersions
  | edit id edits model => exact Tree.keepsVersions_update s.tree id edits model
  | mark id =>
    rcases mark_cases s id with he | he
    · rw [he]
      exact .refl _
    · rw [he]
      exact .refl _
  | call hc =>
    rw [call_ok hc]
    exact .refl _
  | register hr =>
    rw [register_ok hr]
    exact .refl _
  | resync =>
    have hget : ∀ x, s.requestResync.tree.get? x =
        (s.tree.get? x).map fun k => { k with fields := k.fields.forgetSent } :=
      fun x => Tree.get?_component_updateAll ..
    exact Tree.keepsVersions_of_map hget rfl fun _ _ => rfl
  | clear | unregister | pass => exact .refl _

theorem Acts.keepsVersions {r : Replica} (ht : Tracks r s) (ha : Acts clears s s') :
    Tree.KeepsVersions s.tree s'.tree := by
  induction ha with
  | refl => exact .refl _
  | tail hs hlast ih => exact ih.trans (hlast.keepsVersions (ht.acts hs).wellFormed)

/-! ## Versions in a response -/

theorem filter_changes {ids : List ComponentId} (hn : ids.Nodup) (t : Tree μ) (id : ComponentId) :
    (ids.filterMap (changeOf t)).filter (fun change => change.component = id) =
      if id ∈ ids then (changeOf t id).toList else [] := by
  induction ids with
  | nil => rfl
  | cons x ids ih =>
    obtain ⟨hx, hn⟩ := List.nodup_cons.1 hn
    have hfirst : (changeOf t x).toList.filter (fun change => change.component = id) =
        if x = id then (changeOf t id).toList else [] := by
      cases hc : changeOf t x with
      | none => split <;> simp_all
      | some change =>
        have hid := component_of_changeOf hc
        split
        · next he => simp [← he, hc, hid]
        · next hne => simp [hid, hne]
    have hcons : (x :: ids).filterMap (changeOf t) =
        (changeOf t x).toList ++ ids.filterMap (changeOf t) := by
      rw [List.filterMap_cons]
      cases changeOf t x <;> rfl
    rw [hcons, List.filter_append, hfirst, ih hn]
    by_cases he : x = id
    · subst he
      simp [hx]
    · simp [he, eq_comm (a := id)]

/-- what a response carries for an attached component goes on from the version it had, and its
version is counted on by as much -/
theorem versions_commit (hw : c.tree.WellFormed) {id : ComponentId} {d : Component μ}
    (hd : (s.commit c).tree.get? id = some d) : ∃ k n, c.tree.get? id = some k ∧
      versionsIn id (s.pendingMessage c) = List.range' (1 + k.fields.version) n ∧
      d.fields.version = k.fields.version + n := by
  change (commitFields c.tree c.finalized).get? id = some d at hd
  rw [versionsIn]
  show ∃ k n, _ ∧ ((c.finalized.filterMap (changeOf c.tree)).filter _).map _ = _ ∧ _
  have hn := Cascade.nodup_finalized hw
  rw [filter_changes hn]
  by_cases hid : id ∈ c.finalized
  · rw [get?_commitFields_of_mem hn hid, Option.map_eq_some_iff] at hd
    obtain ⟨k, hk, rfl⟩ := hd
    have hchange : changeOf c.tree id =
        k.fields.pendingDiff.map fun diff => ⟨id, k.fields.version + 1, diff⟩ := by
      rw [changeOf, hk]
      rfl
    rw [if_pos hid, hchange]
    -- the announced version and the counted one come from the same difference
    cases hp : k.fields.pendingDiff with
    | none => exact ⟨k, 0, hk, rfl, by simp [FieldBag.commit, hp]⟩
    | some diff =>
      refine ⟨k, 1, hk, ?_, by simp [FieldBag.commit, hp]⟩
      simp [Nat.add_comm]
  · rw [get?_commitFields_of_notMem hid] at hd
    rw [if_neg hid]
    exact ⟨d, 0, hd, rfl, rfl⟩

theorem versionsIn_of_not_contains {id : ComponentId} (h : c.tree.contains id = false) :
    versionsIn id (s.pendingMessage c) = [] := by
  have hnone : c.tree.get? id = none := by
    rw [Tree.get?, Option.map_eq_none_iff]
    exact Option.isNone_iff_eq_none.1 (Option.isSome_eq_false_iff.1 h)
  rw [versionsIn, List.map_eq_nil_iff, List.filter_eq_nil_iff]
  intro change hm hid
  obtain ⟨x, -, hx⟩ := List.mem_filterMap.1 hm
  have hcomponent := component_of_changeOf hx
  rw [of_decide_eq_true hid] at hcomponent
  rw [← hcomponent, changeOf, hnone] at hx
  cases hx

end Session

/-! ## Versions along a history -/

open Session

/-- the versions that were sent are 1, 2, 3, ..., and components have the last of them -/
structure Numbered (log : List (Commit μ)) (s : Session μ η) : Prop where
  consecutive : ∀ id, versionsOf id log = List.range' 1 (versionsOf id log).length
  version : ∀ id k, s.tree.get? id = some k → k.fields.version = (versionsOf id log).length
  fresh : ∀ id : ComponentId, s.tree.nextId ≤ id.value → versionsOf id log = []

namespace Numbered

variable {log : List (Commit μ)} {s s' : Session μ η} {b : Behaviour μ η σ}

theorem keeps (h : Numbered log s) (hk : Tree.KeepsVersions s.tree s'.tree) : Numbered log s' := by
  refine ⟨h.consecutive, fun id k' hk' => ?_, fun id hid => h.fresh id (hk.nextId.trans hid)⟩
  rcases hk.version id k' hk' with ⟨k, hk, he⟩ | ⟨hnew, hzero⟩
  · rw [he]
    exact h.version id k hk
  · rw [hzero, h.fresh id hnew]
    rfl

/-- a response that goes out, with a cascade that has not sent anything yet -/
theorem commit {c : Cascade μ} (h : Numbered log (s.withCascade c)) (hw : c.tree.WellFormed) :
    Numbered (log ++ [⟨s.pendingMessage c, (s.commit c).tree⟩]) (s.commit c) := by
  have hshape : Tree.SameShape c.tree (s.commit c).tree := sameShape_commitFields ..
  have hsent : ∀ id d, (s.commit c).tree.get? id = some d → ∃ n,
      versionsIn id (s.pendingMessage c) = List.range' (1 + (versionsOf id log).length) n ∧
        d.fields.version = (versionsOf id log).length + n := by
    intro id d hd
    obtain ⟨k, n, hk, hin, hversion⟩ := versions_commit hw hd
    rw [h.version id k hk] at hin hversion
    exact ⟨n, hin, hversion⟩
  refine ⟨fun id => ?_, fun id d hd => ?_, fun id hid => ?_⟩
  · rw [versionsOf_append_singleton]
    cases hc : (s.commit c).tree.contains id with
    | false =>
      rw [hshape.contains] at hc
      rw [versionsIn_of_not_contains hc, List.append_nil]
      exact h.consecutive id
    | true =>
      obtain ⟨d, hd⟩ := Tree.contains_iff_get?.1 hc
      obtain ⟨n, hin, -⟩ := hsent id d hd
      rw [hin, h.consecutive id]
      simp
  · obtain ⟨n, hin, hversion⟩ := hsent id d hd
    rw [versionsOf_append_singleton, hin, hversion]
    simp
  · rw [hshape.nextId] at hid
    have hno : c.tree.contains id = false := by
      rw [Bool.eq_false_iff]
      intro hc
      obtain ⟨m, hm⟩ := Tree.contains_iff.1 hc
      have hlt := hw.fresh id m hm
      omega
    rw [versionsOf_append_singleton, h.fresh id hid, versionsIn_of_not_contains hno]
    rfl

theorem respond (h : Numbered log s) (hw : s.tree.WellFormed) {response : Response}
    (hr : s.respond b = (s', .ok response)) :
    Numbered (log ++ [⟨response.message, s'.tree⟩]) s' := by
  obtain ⟨c, hc, rfl, hm⟩ := respond_ok hr
  have hexpl := (course_of_finalize hc).explained
  have hcascade : Numbered log (s.withCascade c) := h.keeps hexpl.keepsVersions
  rw [hm]
  exact hcascade.commit (hexpl.shape.wellFormed hw)

end Numbered

namespace History

variable {log : List (Commit μ)} {s : Session μ η}

theorem numbered (h : History σ log s) : Numbered log s := by
  induction h with
  | @start root config hroot =>
    refine ⟨fun _ => rfl, fun id k hk => ?_, fun _ _ => rfl⟩
    obtain ⟨n, hn, rfl⟩ := Tree.get?_eq_some_iff.1 hk
    obtain ⟨-, rfl⟩ := Tree.eq_of_get?_ofRoot hn
    exact hroot.version
  | act h ha ih => exact ih.keeps (ha.keepsVersions h.recorded.wellFormed)
  | deliver call h hb ih =>
    obtain ⟨r, -, ht⟩ := h.recorded.tracks
    exact ih.keeps (Acts.keepsVersions ht (acts_deliver hb _ call))
  | receive m h hb ih =>
    obtain ⟨r, -, ht⟩ := h.recorded.tracks
    exact ih.keeps (Acts.keepsVersions ht (acts_receive hb _ m))
  | respond h hr ih => exact ih.respond h.recorded.wellFormed hr
  | unanswered h hr ih =>
    obtain ⟨c, hab⟩ := abandoned_of_respond h.recorded.wellFormed hr
    refine ih.keeps ?_
    rw [hab.state]
    exact hab.explained.keepsVersions

theorem exists_take (h : History σ log s) {n : Nat} {c : Commit μ} (hc : log[n]? = some c) :
    ∃ s' : Session μ η, History σ (log.take (n + 1)) s' ∧ s'.tree = c.tree := by
  induction h with
  | start => cases hc
  | act _ _ ih => exact ih hc
  | deliver _ _ _ ih => exact ih hc
  | receive _ _ _ ih => exact ih hc
  | unanswered _ _ ih => exact ih hc
  | @respond log s s' b response h hr ih =>
    by_cases hn : n < log.length
    · rw [List.getElem?_append_left hn] at hc
      rw [List.take_append_of_le_length hn]
      exact ih hc
    · obtain ⟨hlen, -⟩ := List.getElem?_eq_some_iff.1 hc
      rw [List.length_append, List.length_singleton] at hlen
      obtain rfl : n = log.length := by omega
      rw [List.getElem?_concat_length] at hc
      obtain rfl := Option.some.inj hc
      refine ⟨s', ?_, rfl⟩
      rw [List.take_of_length_le (by simp)]
      exact h.respond hr

/-- The `n`-th response carries `n` modulo 65536; the changes of a component carry the versions 1, 2,
3, ... over all responses; after each response the version of a component is the one last sent of
it, or 0. -/
theorem numbering (h : History σ log s) :
    (∀ n c, log[n]? = some c → c.message.sequence.value.toNat = n % 65536) ∧
    (∀ id, versionsOf id log = List.range' 1 (versionsOf id log).length) ∧
    ∀ n c, log[n]? = some c → ∀ id k, c.tree.get? id = some k →
      k.fields.version = (versionsOf id (log.take (n + 1))).getLast?.getD 0 := by
  refine ⟨fun n c hc => ?_, h.numbered.consecutive, fun n c hc id k hk => ?_⟩
  · rw [(h.recorded.faithful n c hc).1, SequenceNumber.ofNat, UInt16.toNat_ofNat']
  · obtain ⟨s', hs', htree⟩ := h.exists_take hc
    have hnum := hs'.numbered
    rw [hnum.version id k (htree ▸ hk), hnum.consecutive id, List.getLast?_range']
    split
    · next hzero => simp [hzero]
    · simp

end History

/-! ### A page that is given up and sent anew -/

namespace Session

/-- the page and its note: a response is given up, another one is written, and then everything is
asked for anew -/
def sentAnew : Session Unit Unit :=
  ((awaited.respond leaving).1.respond (.idle : Behaviour Unit Unit Unit)).1.requestResync

theorem numbering_page : ∃ (log : List (Commit Unit)) (s : Session Unit Unit),
    History Unit log s ∧ log.length = 2 ∧ versionsOf ⟨2⟩ log = [1, 2] ∧
    (∀ n c, log[n]? = some c → c.message.sequence.value.toNat = n % 65536) ∧
    ∀ n c, log[n]? = some c → ∀ id k, c.tree.get? id = some k →
      k.fields.version = (versionsOf id (log.take (n + 1))).getLast?.getD 0 := by
  have hgivenUp : awaited.respond leaving = ((awaited.respond leaving).1,
      .error (.cascade (.structureChange ⟨2⟩))) := rfl
  have hawaited := chronicle_awaited.history.unanswered hgivenUp
  -- the messages are kept in view, as the versions are read off them
  obtain ⟨first, hfirst, hwritten⟩ : ∃ first : Response,
      versionsIn ⟨2⟩ first.message = [1] ∧
        (awaited.respond leaving).1.respond (.idle : Behaviour Unit Unit Unit) =
          (((awaited.respond leaving).1.respond (.idle : Behaviour Unit Unit Unit)).1,
            .ok first) := ⟨_, rfl, rfl⟩
  obtain ⟨second, hsecond, hanew⟩ : ∃ second : Response,
      versionsIn ⟨2⟩ second.message = [2] ∧
        sentAnew.respond (.idle : Behaviour Unit Unit Unit) =
          ((sentAnew.respond (.idle : Behaviour Unit Unit Unit)).1, .ok second) := ⟨_, rfl, rfl⟩
  have hhistory := ((hawaited.respond hwritten).act .resync).respond hanew
  obtain ⟨hsequence, -, hversions⟩ := hhistory.numbering
  refine ⟨_, _, hhistory, rfl, ?_, hsequence, hversions⟩
  rw [versionsOf_append_singleton, versionsOf_append_singleton, hfirst, hsecond]
  rfl

end Session

/-! ## Setups that write responses -/

namespace Session

def Continues (σ : Type) (s s' : Session μ η) : Prop :=
  ∀ log, History σ log s → ∃ more, History σ (log ++ more) s'

namespace Continues

variable {b : Behaviour μ η σ} {s s' s'' : Session μ η}

theorem trans (h : Continues σ s s') (h' : Continues σ s' s'') : Continues σ s s'' := by
  intro log hlog
  obtain ⟨more, hmore⟩ := h log hlog
  obtain ⟨more', hmore'⟩ := h' _ hmore
  refine ⟨more ++ more', ?_⟩
  rw [← List.append_assoc]
  exact hmore'

theorem of_act (ha : Act true s s') : Continues σ s s' := by
  intro log hlog
  refine ⟨[], ?_⟩
  rw [List.append_nil]
  exact hlog.act ha

theorem refl (s : Session μ η) : Continues σ s s := fun log hlog => ⟨[], by simpa using hlog⟩

/-- a setup may write responses, whether they succeed or not -/
theorem respond (s : Session μ η) (b : Behaviour μ η σ) : Continues σ s (s.respond b).1 := by
  intro log hlog
  cases hr : s.respond b with
  | mk s' outcome =>
    cases outcome with
    | ok response => exact ⟨_, hlog.respond hr⟩
    | error e => exact ⟨[], by simpa using hlog.unanswered hr⟩

variable (hfresh : ∀ handler c call, ∀ q ∈ (b.handle handler c call).1.requests, q.Fresh)
  (hsetup : ∀ setup s id, Continues σ s (b.setup setup s id).1)
include hfresh hsetup

theorem across : Across b (Continues (μ := μ) (η := η) σ) where
  refl := refl
  trans := trans
  edit _ id edits model := of_act (.edit id edits model)
  call hc := of_act (.call hc)
  mark _ id := of_act (.mark id)
  request handler c call q hq s := by
    have hnew := hfresh handler c call q hq
    rcases applyRequest_cases b s q with he | ⟨_, _, _, id, s', rfl, ha, he⟩ | ⟨_, s', -, hd, he⟩
    · rw [he]
      exact refl s
    · have hattach : Continues σ s s' := of_act (.attach hnew ha)
      rcases he with he | ⟨x, he⟩
      · rw [he]
        exact hattach
      · rw [he]
        exact hattach.trans (hsetup x s' id)
    · rw [he]
      exact of_act (.detach hd)

/-- a message whose setups write responses is part of a history that has these responses -/
theorem receive (s : Session μ η) (m : ClientMessage) : Continues σ s (s.receive b m).1 :=
  (across hfresh hsetup).receive (fun _ n => of_act (.pass n)) (fun _ => of_act .resync) s m

end Continues

end Session

end UiSync
