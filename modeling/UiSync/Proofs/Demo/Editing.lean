import UiSync.Proofs.Demo.Form
import UiSync.Proofs.Sync.Reception
import UiSync.Proofs.Tree.Blocks

/-!
# Editors of the listing

The listing of a form opens an editor for a row and closes it again.  Its handler changes the field
of the listing at once, while the editors come and go later, and the setup of a new one notes it in
the model; `Edits` says that the three agree once an invocation was delivered.  In between they need
not, which is why `Listed` keeps the children, the noted editor and the row apart.

`EditingRun` says that a session of the form can get to a state by messages, responses and whatever
else does not touch the editor.  What is open is what the invocations that succeeded ask for last
(`rowOf`), at the session and at every client that follows it (`editor_shown`).
-/

namespace UiSync.Demo

open Json

/-! ## What a listing is asked for -/

def editorTitle (row : Nat) : String := "Editing row " ++ toString row

def namedRow (call : Invocation) : Option Nat :=
  match call.args with
  | .integer n :: _ => some n.val.toNat
  | _ => none

/-- the row for which an invocation wants an editor to be open, if it says anything about editors -/
def asked (call : Invocation) : Option (Option Nat) :=
  match call.method with
  | "openEditor" => some (namedRow call)
  | "closeEditor" => some none
  | _ => none

/-- the same for an invocation that succeeded with the listing -/
def editing? (o : Outcome) : Option (Option Nat) :=
  if o.failure?.isNone ∧ o.call.component = Place.listing ∧
      o.call.interface = Interface.listing then
    asked o.call
  else none

/-- the row of the last editor that was opened, if none was closed since -/
def rowOf (outs : List Outcome) : Option Nat := (outs.filterMap editing?).getLast?.join

theorem rowOf_concat (outs : List Outcome) (o : Outcome) :
    rowOf (outs ++ [o]) = (editing? o).getD (rowOf outs) := by
  unfold rowOf
  rw [List.filterMap_append, List.filterMap_cons, List.filterMap_nil]
  cases editing? o with
  | none => rw [List.append_nil, Option.getD_none]
  | some row => rw [List.getLast?_concat, Option.getD_some, Option.join_some]

theorem editing?_of_error {o : Outcome} {e : InvocationError} (h : o.answer = .error e) :
    editing? o = none := by
  refine if_neg fun hsuccess => ?_
  rw [Outcome.failure?, h] at hsuccess
  cases hsuccess.1

theorem editing?_of_ok {o : Outcome} (h : o.answer = .ok ())
    (hid : o.call.component = Place.listing) (hi : o.call.interface = Interface.listing) :
    editing? o = asked o.call := by
  refine if_pos ⟨?_, hid, hi⟩
  rw [Outcome.failure?, h]
  rfl

theorem editing?_of_ne {o : Outcome} (h : o.call.component ≠ Place.listing) :
    editing? o = none := if_neg fun hlisting => h hlisting.2.1

/-! ## How it reacts -/

def paging (l : Listing) (window : Window Row (Row → Bool)) : PartReaction :=
  { idle (.listing { l with window := window }) with marks := [Place.listing] }

def opening (l : Listing) (row : Nat) : PartReaction :=
  { idle (.listing { l with editor := none }) with
    edits := [.set "editingRow" (.ofNat row)]
    marks := [Place.listing]
    requests := closing l ++
      [.attach Place.listing (Part.label (editorTitle row)) (some (.noteEditor Place.listing))] }

def shutting (l : Listing) : PartReaction :=
  { idle (.listing { l with editor := none }) with
    edits := [.remove "editingRow"]
    marks := [Place.listing]
    requests := closing l }

inductive Answers (l : Listing) (call : Invocation) : PartReaction → Prop
  | paging (window : Window Row (Row → Bool)) : asked call = none → Answers l call (paging l window)
  | opening (row : Nat) :
      row < 2 ^ 32 → asked call = some (some row) → Answers l call (opening l row)
  | shutting : asked call = some none → Answers l call (shutting l)

/-- an argument that is read as a row names it -/
theorem namedRow_of_arg {call : Invocation} {row : Nat}
    (h : call.arg (View.nat 32 "u32") 0 = .ok row) : namedRow call = some row ∧ row < 2 ^ 32 := by
  obtain ⟨v, rest, hargs, hv⟩ := arg_eq_ok h
  obtain ⟨n, rfl, rfl, hlt⟩ := nat_eq_ok hv
  refine ⟨?_, hlt⟩
  rw [namedRow, hargs]

theorem answers_of_handle {c : Part} {l : Listing} {call : Invocation} {r : PartReaction}
    (hc : c.model = .listing l) (hid : call.component = Place.listing)
    (hr : handle .listing c call = (r, .ok ())) : Answers l call r := by
  have hhandle : handle .listing c call = handleListing c l call := by
    unfold handle
    rw [hc]
  have hrefuse : ∀ e, refuse c e ≠ (r, .ok ()) := fun e he => by cases congrArg Prod.snd he
  have haccept : ∀ r', accept r' = (r, .ok ()) → r' = r := fun r' he => congrArg Prod.fst he
  rw [hhandle] at hr
  unfold handleListing at hr
  split at hr
  · next hmethod =>
    split at hr
    · exact absurd hr (hrefuse _)
    · exact absurd hr (hrefuse _)
    · obtain rfl := haccept _ hr
      rw [hid]
      exact .paging _ (by simp [asked, hmethod])
  · next hmethod =>
    split at hr
    · exact absurd hr (hrefuse _)
    · next row harg =>
      obtain rfl := haccept _ hr
      obtain ⟨hrow, hlt⟩ := namedRow_of_arg harg
      rw [hid]
      exact .opening row hlt (by simp [asked, hmethod, hrow])
  · next hmethod =>
    obtain rfl := haccept _ hr
    rw [hid]
    exact .shutting (by simp [asked, hmethod])
  · exact absurd hr (hrefuse _)

/-! ## The listing and its editor -/

/-- the listing has noted the editor and shows the row, and the editor names the row -/
structure Keeps (editor : Option ComponentId) (row : Option Nat) (id : ComponentId) (c : Part) :
    Prop where
  noted : id = Place.listing → ∃ l, c.model = .listing l ∧ l.editor = editor
  shown : id = Place.listing → c.fields.get? "editingRow" = row.map Value.ofNat
  titled : some id = editor → c.model = .label ∧
    c.fields.get? FieldName.caption = row.map fun n => .string (editorTitle n)

namespace Keeps

variable {editor : Option ComponentId} {row : Option Nat} {id : ComponentId} {c d : Part}

/-- nothing is said of other components -/
theorem elsewhere (hid : id ≠ Place.listing) (he : some id ≠ editor) (c : Part) :
    Keeps editor row id c :=
  ⟨fun h => absurd h hid, fun h => absurd h hid, fun h => absurd h he⟩

theorem congr (h : Keeps editor row id c) (hm : d.model = c.model)
    (hf : d.fields.fields = c.fields.fields) : Keeps editor row id d := by
  have hget : ∀ name, d.fields.get? name = c.fields.get? name := by
    intro name
    rw [FieldBag.get?, hf, FieldBag.get?]
  exact ⟨fun hid => hm ▸ h.noted hid, fun hid => (hget _).trans (h.shown hid),
    fun he => ⟨hm.trans (h.titled he).1, (hget _).trans (h.titled he).2⟩⟩

end Keeps

theorem hook_listing {c : Part} {l : Listing} (h : c.model = .listing l) (rows : List Row)
    (id : ComponentId) (first : Bool) : hook rows id c first =
      { idle (.listing (l.load rows)) with edits := (l.load rows).edits } := by
  simp only [hook, h]

theorem upholds_keeps (rows : List Row) (editor : Option ComponentId) (row : Option Nat) :
    (behaviour rows).Upholds (Keeps editor row) := by
  intro id c first h
  refine ⟨fun hid => ?_, fun hid => ?_, fun he => ?_⟩
  · obtain ⟨l, hl, hnoted⟩ := h.noted hid
    refine ⟨l.load rows, ?_, hnoted⟩
    show (hook rows id c first).model = _
    rw [hook_listing hl]
    rfl
  · obtain ⟨l, hl, -⟩ := h.noted hid
    show ((hook rows id c first).edits.foldl FieldBag.edit c.fields).get? "editingRow" = _
    rw [hook_listing hl, ← h.shown hid]
    show ((c.fields.set "rows" _).set "size" _).get? "editingRow" = _
    rw [FieldBag.get?_set_of_ne (by decide), FieldBag.get?_set_of_ne (by decide)]
  · obtain ⟨hlabel, hcaption⟩ := h.titled he
    have hidle : hook rows id c first = .idle .label := by rw [hook, hlabel]
    show ((hook rows id c first).apply c).model = _ ∧
      ((hook rows id c first).apply c).fields.get? _ = _
    rw [hidle]
    exact ⟨rfl, hcaption⟩

structure Listed (s : PartSession) (kids : List ComponentId) (editor : Option ComponentId)
    (row : Option Nat) : Prop where
  formed : Formed s
  attached : s.tree.contains Place.listing = true
  kids : s.tree.children Place.listing = kids
  keeps : s.tree.Each (Keeps editor row)

namespace Listed

variable {s s' : PartSession} {kids : List ComponentId} {editor editor' : Option ComponentId}
  {row row' : Option Nat} {call : Invocation} {c : Part} {r : PartReaction}

/-- a form whose tree has kept its structure -/
theorem edited (h : Listed s kids editor row) (hf : Formed s')
    (hshape : Tree.SameShape s.tree s'.tree) (hk : s'.tree.Each (Keeps editor' row')) :
    Listed s' kids editor' row' :=
  ⟨hf, (hshape.contains _).trans h.attached, (hshape.children _).trans h.kids, hk⟩

/-- the listing as it is known -/
theorem get?_listing (h : Listed s kids editor row) :
    ∃ c l, s.tree.get? Place.listing = some c ∧ c.model = .listing l ∧ l.editor = editor := by
  obtain ⟨c, hc⟩ := Tree.contains_iff_get?.1 h.attached
  obtain ⟨l, hl, hnoted⟩ := (h.keeps _ _ hc).noted rfl
  exact ⟨_, l, hc, hl, hnoted⟩

/-- the listing has reacted and taken its editor for gone -/
theorem forgets (h : Listed s kids editor row) (hr : s.Reacted call c r s')
    (hc : s.tree.get? call.component = some c) (hid : call.component = Place.listing)
    (hmark : Place.listing ∈ r.marks) {l : Listing} (hm : r.model = .listing l)
    (hl : l.editor = none)
    (hrow : (r.apply c).fields.get? "editingRow" = row'.map Value.ofNat) :
    Listed s' kids none row' := by
  have hplain : Plain call.component (r.apply c) := plain_of_listing hm
  refine h.edited (h.formed.reacted hr hc (.inr (hid ▸ hmark)) hplain) hr.shape fun x d hd => ?_
  by_cases hx : x = Place.listing
  · rw [hx, ← hid, hr.own] at hd
    obtain rfl := Option.some.inj hd
    exact ⟨fun _ => ⟨l, hm, hl⟩, fun _ => hrow, nofun⟩
  · exact .elsewhere hx (fun he => by cases he) d

/-! ### Changes of the tree -/

/-- the editor of a listing that has forgotten it can be taken away -/
theorem closes (h : Listed s editor.toList none row) {l : Listing} (hl : l.editor = editor)
    (rows : List Row) : ∃ log s', Session.CarriedOut (behaviour rows) s (closing l) log s' ∧
      Listed s' [] none row := by
  subst hl
  unfold closing
  cases he : l.editor with
  | none =>
    rw [he] at h
    exact ⟨[], s, .nil, h⟩
  | some e =>
    rw [he] at h
    have hw := h.formed.current.wellFormed
    have hmem : e ∈ s.tree.children Place.listing := by
      rw [h.kids]
      exact List.mem_singleton_self e
    have hlt := hw.lt_of_mem_children hmem
    have hroot : e ≠ s.tree.root := fun hr => hw.root_notMem_children _ (hr ▸ hmem)
    obtain ⟨s', hs'⟩ := Session.exists_detach (hw.contains_child hmem) hroot
    have hformed := h.formed.detach hs' hlt
    refine ⟨_, s', .cons (.detach hs') .nil, ?_⟩
    obtain ⟨removed, t', ht, rfl⟩ := Session.detach_ok hs'
    have hdet := hw.detached ht
    have hkept : Place.listing ∉ removed := by
      intro hm
      have hle := hw.le_of_under ((hdet.mem_removed _).1 hm)
      omega
    refine ⟨hformed, hdet.contains_of_notMem h.attached hkept, ?_, h.keeps.detach hw ht⟩
    show t'.children Place.listing = []
    rw [hdet.children_kept hkept, h.kids]
    simp

/-- an editor can be attached where there is none, and is noted -/
theorem opens {n : Nat} (h : Listed s [] none (some n)) (rows : List Row) :
    ∃ log e s', Session.CarriedOut (behaviour rows) s
      [.attach Place.listing (Part.label (editorTitle n)) (some (.noteEditor Place.listing))]
        log s' ∧
      Listed s' [e] (some e) (some n) := by
  obtain ⟨e, s₁, ha⟩ := Session.exists_attach h.attached (Part.label (editorTitle n))
  obtain ⟨c, l, hc, hl, -⟩ := h.get?_listing
  refine ⟨_, e, s₁.update Place.listing (noteEditor e), .cons (.attachWith ha rfl) .nil, ?_⟩
  have hformed : Formed s₁ := h.formed.attach ha trivial
  have hshape := Tree.sameShape_update s₁.tree Place.listing (noteEditor e)
  obtain ⟨t', ht, rfl⟩ := Session.attach_ok ha
  obtain ⟨m, hm⟩ := h.formed.current.wellFormed.attached ht
  have hne : Place.listing ≠ e := by
    intro he
    obtain ⟨k, hk⟩ := Tree.contains_iff.1 h.attached
    rw [he, hm.unused] at hk
    cases hk
  have hlisting : t'.get? Place.listing = some c := (hm.get?_parent?_of_ne hne).1.trans hc
  have hnew : t'.get? e = some (Part.label (editorTitle n)) :=
    Tree.get?_eq_some_iff.2 ⟨_, hm.new, rfl⟩
  refine ⟨hformed.noted Place.listing e, ?_, ?_, fun x d hd => ?_⟩
  · exact (hshape.contains _).trans (Tree.contains_iff.2 ⟨_, hm.above⟩)
  · refine (hshape.children _).trans ?_
    show t'.children Place.listing = [e]
    rw [hm.children_parent, h.kids]
    rfl
  · by_cases hx : x = Place.listing
    · subst hx
      change (t'.update Place.listing (noteEditor e)).get? Place.listing = some d at hd
      rw [Tree.get?_component_update_self, hlisting] at hd
      obtain rfl := Option.some.inj hd
      refine ⟨fun _ => ⟨{ l with editor := some e }, ?_, rfl⟩, fun _ => ?_, fun he => ?_⟩
      · unfold noteEditor
        rw [hl]
      · rw [fields_noteEditor]
        exact (h.keeps _ _ hc).shown rfl
      · exact absurd (Option.some.inj he) hne
    · by_cases hxe : x = e
      · subst hxe
        change (t'.update Place.listing (noteEditor x)).get? x = some d at hd
        rw [Tree.get?_component_update_of_ne hx, hnew] at hd
        obtain rfl := Option.some.inj hd
        exact ⟨fun he => absurd he hx, fun he => absurd he hx, fun _ => ⟨rfl, rfl⟩⟩
      · exact .elsewhere hx (fun he => hxe (Option.some.inj he)) d

end Listed

/-! ## Invocations and messages -/

/-- the editor is open for the row, or there is neither -/
structure Edits (s : PartSession) (editor : Option ComponentId) (row : Option Nat) : Prop where
  listed : Listed s editor.toList editor row
  isSome : editor.isSome = row.isSome
  small : ∀ n, row = some n → n < 2 ^ 32

namespace Edits

variable {s s' : PartSession} {editor : Option ComponentId} {row : Option Nat}
  {call : Invocation} {c : Part} {r : PartReaction}

/-- a form whose tree has kept its structure -/
theorem edited (h : Edits s editor row) (hf : Formed s')
    (hshape : Tree.SameShape s.tree s'.tree) (hk : s'.tree.Each (Keeps editor row)) :
    Edits s' editor row :=
  ⟨h.listed.edited hf hshape hk, h.isSome, h.small⟩

theorem congr (h : Edits s editor row) (ht : s'.tree = s.tree)
    (hr : s'.registry = s.registry) (hd : ∀ id, s.isDirty id = true → s'.isDirty id = true) :
    Edits s' editor row :=
  h.edited (h.listed.formed.congr ht hr hd) (ht ▸ .refl _) (ht ▸ h.listed.keeps)

/-- another component has reacted -/
theorem elsewhere (h : Edits s editor row) {handler : Handler} (hacc : s.Accepts call handler c)
    (hh : handler ≠ .listing) (hr : handle handler c call = (r, .ok ()))
    (hreacted : s.Reacted call c r s') :
    call.component ≠ Place.listing ∧ r.requests = [] ∧ Edits s' editor row := by
  have hformed := h.listed.formed
  have hattends := (hformed.handlers _ _ _).1 hacc.handler
  obtain ⟨hrequests, hmarks, hplain⟩ :=
    handle_elsewhere hh (hformed.not_script hacc.handler) hr
  have hne : call.component ≠ Place.listing := by
    intro he
    rw [he] at hattends
    exact hh hattends.listing_of_eq
  have hother : some call.component ≠ editor := by
    rintro rfl
    have hmem : call.component ∈ s.tree.children Place.listing := by
      rw [h.listed.kids]
      exact List.mem_singleton_self _
    have hlt := hformed.current.wellFormed.lt_of_mem_children hmem
    have hle := hattends.le
    omega
  refine ⟨hne, hrequests, h.edited ?_ hreacted.shape ?_⟩
  · exact hformed.reacted hreacted hacc.component hmarks
      (hplain _ (hformed.plain _ _ hacc.component))
  · exact h.listed.keeps.reacted hreacted (.elsewhere hne hother _)

/-- the listing has carried out an invocation -/
theorem carries (h : Edits s editor row) (hc : s.tree.get? call.component = some c)
    (hid : call.component = Place.listing) (hr : handle .listing c call = (r, .ok ()))
    (hreacted : s.Reacted call c r s') (rows : List Row) : ∃ log s'' editor',
      Session.CarriedOut (behaviour rows) s' r.requests log s'' ∧
        Edits s'' editor' ((asked call).getD row) := by
  have hformed := h.listed.formed
  obtain ⟨l, hl, hnoted⟩ := (h.listed.keeps _ _ hc).noted hid
  cases answers_of_handle hl hid hr with
  | paging window hasked =>
    rw [hasked]
    have hmodel : (paging l window).model = .listing { l with window := window } := rfl
    have hown : Keeps editor row call.component ((paging l window).apply c) :=
      ⟨fun _ => ⟨_, rfl, hnoted⟩, (h.listed.keeps _ _ hc).shown, fun he => ?_⟩
    · refine ⟨[], s', editor, .nil, h.edited ?_ hreacted.shape ?_⟩
      · exact hformed.reacted hreacted hc (.inl rfl) (plain_of_listing hmodel)
      · exact h.listed.keeps.reacted hreacted hown
    · -- the listing is no label
      have hlabel := ((h.listed.keeps _ _ hc).titled he).1
      rw [hl] at hlabel
      cases hlabel
  | opening row' hlt hasked =>
    rw [hasked]
    have hforgets : Listed s' editor.toList none (some row') :=
      h.listed.forgets hreacted hc hid (List.mem_singleton_self _) (l := { l with editor := none })
        rfl rfl (FieldBag.get?_set_self ..)
    obtain ⟨log₁, s₁, hcloses, h₁⟩ := hforgets.closes hnoted rows
    obtain ⟨log₂, e, s₂, hopens, h₂⟩ := h₁.opens rows
    refine ⟨_, s₂, some e, hcloses.append hopens, h₂, rfl, fun n hn => ?_⟩
    obtain rfl := Option.some.inj hn
    exact hlt
  | shutting hasked =>
    rw [hasked]
    have hforgets : Listed s' editor.toList none none :=
      h.listed.forgets hreacted hc hid (List.mem_singleton_self _) (l := { l with editor := none })
        rfl rfl (FieldBag.get?_remove_self ..)
    obtain ⟨log, s₁, hcloses, h₁⟩ := hforgets.closes hnoted rows
    exact ⟨log, s₁, none, hcloses, h₁, rfl, nofun⟩

/-- one invocation, whatever becomes of it -/
theorem deliver (h : Edits s editor row) (rows : List Row) (call : Invocation) :
    ∃ editor', Edits (s.deliver (behaviour rows) call).1 editor'
      ((editing? ⟨call, (s.deliver (behaviour rows) call).2⟩).getD row) := by
  have hformed := h.listed.formed
  rcases hformed.deliver_cases rows call with ⟨g, e, hd⟩ | ⟨handler, c, r, hacc, hr, hd⟩
  · rw [hd, editing?_of_error rfl]
    exact ⟨editor, h.congr rfl rfl fun id hid => hid⟩
  · have hreacted := Session.reacted_absorb hacc.component r
    by_cases hh : handler = .listing
    · subst hh
      obtain ⟨hid, hinterface⟩ := ((hformed.handlers _ _ _).1 hacc.handler).of_listing
      obtain ⟨log, s', editor', hcarried, h'⟩ := h.carries hacc.component hid hr hreacted rows
      rw [Session.applyRequests_ok_iff.2 ⟨log, hcarried⟩] at hd
      rw [hd, editing?_of_ok rfl hid hinterface]
      exact ⟨editor', h'⟩
    · obtain ⟨hne, hrequests, h'⟩ := h.elsewhere hacc hh hr hreacted
      rw [hrequests] at hd
      rw [hd, editing?_of_ne hne]
      exact ⟨editor, h'⟩

/-- the invocations of a message, one after the other -/
theorem deliverAll {outs : List Outcome} (h : Edits s editor (rowOf outs)) (rows : List Row)
    (calls : List Invocation) : ∃ editor', Edits (s.deliverAll (behaviour rows) calls) editor'
      (rowOf (outs ++ s.outcomes (behaviour rows) calls)) := by
  induction calls generalizing s editor outs with
  | nil =>
    refine ⟨editor, ?_⟩
    rw [Session.outcomes, List.append_nil]
    exact h
  | cons call calls ih =>
    obtain ⟨editor', h'⟩ := h.deliver rows call
    rw [← rowOf_concat] at h'
    obtain ⟨editor'', h''⟩ := ih h'
    rw [List.append_assoc] at h''
    exact ⟨editor'', h''⟩

/-! ### Whatever else happens -/

theorem start (config : Config) : Edits (formSession config) none none := by
  have hformed := Formed.start config
  refine ⟨⟨hformed, ?_, ?_, fun id c hc => ?_⟩, rfl, nofun⟩
  · cbv
  · cbv
  · by_cases hid : id = Place.listing
    · subst hid
      have hlisting : (formSession config).tree.get? Place.listing =
          some (Part.listing none 5) := by
        cbv
      rw [hlisting] at hc
      obtain rfl := Option.some.inj hc
      exact ⟨fun _ => ⟨_, rfl, rfl⟩, fun _ => rfl, fun he => by cases he⟩
    · exact .elsewhere hid (fun he => by cases he) c

theorem greet (h : Edits s editor row) (seen : Option SequenceNumber) :
    Edits (s.greet seen) editor row := by
  have hformed := h.listed.formed.greet seen
  by_cases hm : s.missed seen = true
  · rw [Session.greet, if_pos hm] at hformed ⊢
    have hshape := Tree.sameShape_updateAll s.tree fun c =>
      { c with fields := c.fields.forgetSent }
    exact h.edited hformed hshape (h.listed.keeps.updateAll fun _ _ hc => hc.congr rfl rfl)
  · rw [Session.greet, if_neg hm]
    exact h

theorem receive {outs : List Outcome} (h : Edits s editor (rowOf outs)) (rows : List Row)
    (m : ClientMessage) : ∃ editor', Edits (s.receive (behaviour rows) m).1 editor'
      (rowOf (outs ++ (s.greet m.lastResponse).outcomes (behaviour rows) m.invocations)) := by
  rw [Session.receive_eq]
  exact (h.greet m.lastResponse).deliverAll rows m.invocations

theorem respond (h : Edits s editor row) (rows : List Row) :
    Edits (s.respond (behaviour rows)).1 editor row :=
  h.edited h.listed.formed.respond (Session.sameShape_respond s _)
    (h.listed.keeps.respond (upholds_keeps rows editor row) fun _ _ hc => hc.congr rfl rfl)

theorem mark (h : Edits s editor row) (id : ComponentId) : Edits (s.mark id) editor row := by
  have hdirty : ∀ x, s.isDirty x = true → (s.mark id).isDirty x = true :=
    fun x hx => (Session.isDirty_mark s id x).2 (.inr hx)
  rcases Session.mark_cases s id with he | he
  · rw [he]
    exact h
  · rw [he] at hdirty ⊢
    exact h.congr rfl rfl hdirty

theorem queue (h : Edits s editor row) {id : ComponentId} {interface method : String}
    {args : List Value} (hcall : s.call id interface method args = .ok s') :
    Edits s' editor row := by
  rw [Session.call_ok hcall]
  exact h.congr rfl rfl fun x hx => hx

theorem observe (h : Edits s editor row) (change : DataChange Row) :
    Edits (observeRows change s) editor row := by
  refine h.edited (h.listed.formed.observe change)
    (Tree.sameShape_updateAll s.tree (observed change)) ?_
  refine h.listed.keeps.updateAll fun id c hc => ⟨fun hid => ?_, fun hid => ?_, fun he => ?_⟩
  · obtain ⟨l, hl, hnoted⟩ := hc.noted hid
    exact ⟨l.observe change, observed_of_listing hl change, (editor_observe change l).trans hnoted⟩
  · show (observed change c).fields.get? "editingRow" = _
    rw [fields_observed]
    exact hc.shown hid
  · have htitled := hc.titled he
    show (observed change c).model = _ ∧ (observed change c).fields.get? _ = _
    rw [observed_of_label htitled.1]
    exact htitled

end Edits

/-! ## What is shown -/

def notedEditor (t : Tree Model) : Option ComponentId :=
  (t.get? Place.listing).bind fun c =>
    match c.model with
    | .listing l => l.editor
    | _ => none

/-- the listing has the editor, and nothing else, below it, and the row is named by its field and
by the caption of the editor; without an editor there is nothing of that -/
structure EditorShown (children : ComponentId → List ComponentId)
    (field? : ComponentId → String → Option Value) (editor : Option ComponentId)
    (row : Option Nat) : Prop where
  children : children Place.listing = editor.toList
  field : field? Place.listing "editingRow" = row.map Value.ofNat
  caption : (editor.map fun e => field? e FieldName.caption) =
    row.map fun n => some (.string (editorTitle n))

namespace Edits

variable {s : PartSession} {editor : Option ComponentId} {row : Option Nat}

theorem notedEditor_eq (h : Edits s editor row) : notedEditor s.tree = editor := by
  obtain ⟨c, l, hc, hl, rfl⟩ := h.listed.get?_listing
  unfold notedEditor
  rw [hc, Option.bind_some, hl]

theorem shown (h : Edits s editor row) : EditorShown s.tree.children s.tree.field? editor row := by
  obtain ⟨c, l, hc, -⟩ := h.listed.get?_listing
  refine ⟨h.listed.kids, ?_, ?_⟩
  · rw [Tree.field?, hc]
    exact (h.listed.keeps _ _ hc).shown rfl
  · have hsome := h.isSome
    cases editor with
    | none =>
      rw [Option.isSome_none, eq_comm, Option.isSome_eq_false_iff,
        Option.isNone_iff_eq_none] at hsome
      rw [hsome]
      rfl
    | some e =>
      rw [Option.isSome_some, eq_comm, Option.isSome_iff_exists] at hsome
      obtain ⟨n, rfl⟩ := hsome
      have hmem : e ∈ s.tree.children Place.listing := by
        rw [h.listed.kids]
        exact List.mem_singleton_self e
      have hwellFormed := h.listed.formed.current.wellFormed
      obtain ⟨d, he⟩ := Tree.contains_iff_get?.1 (hwellFormed.contains_child hmem)
      show some (s.tree.field? e FieldName.caption) = _
      rw [Tree.field?, he, Option.bind_some, ((h.listed.keeps _ _ he).titled rfl).2]
      rfl

end Edits

/-- a mirror of the fields shows the editor as it is -/
theorem EditorShown.mirrored {t : Tree Model} {editor : Option ComponentId} {row : Option Nat}
    (h : EditorShown t.children t.field? editor row) (hsmall : ∀ n, row = some n → n < 2 ^ 32)
    {r : Replica} (hm : r.Mirrors FieldBag.fields t) :
    EditorShown r.children r.field? editor row := by
  refine ⟨(hm.children _).trans h.children, ?_, ?_⟩
  · rw [hm.field?_eq, h.field]
    intro v hv
    rw [h.field, Option.map_eq_some_iff] at hv
    obtain ⟨n, hn, rfl⟩ := hv
    have hlt := hsmall n hn
    exact Value.sharp_ofInt (by omega) (by omega)
  · rw [← h.caption]
    cases editor with
    | none => rfl
    | some e =>
      refine congrArg some (hm.field?_eq fun v hv => ?_)
      have hcaption := h.caption
      rw [Option.map_some, hv, eq_comm, Option.map_eq_some_iff] at hcaption
      obtain ⟨n, -, he⟩ := hcaption
      obtain rfl := Option.some.inj he
      exact .string _

/-! ## Runs -/

/-- a response that was written, and the row an editor was open for by then -/
structure Edition where
  commit : Commit Model
  row : Option Nat

/-- a session of the form got to `s` after the editions of `log` were written and invocations came
out as `outs`; nothing but invocations opens and closes editors -/
inductive EditingRun (config : Config) : List Edition → List Outcome → PartSession → Prop
  | start : EditingRun config [] [] (formSession config)
  | receive {log : List Edition} {outs : List Outcome} {s : PartSession} (rows : List Row)
      (m : ClientMessage) : EditingRun config log outs s →
        EditingRun config log
          (outs ++ (s.greet m.lastResponse).outcomes (behaviour rows) m.invocations)
          (s.receive (behaviour rows) m).1
  | respond {log : List Edition} {outs : List Outcome} {s s' : PartSession} (rows : List Row)
      {response : Response} : EditingRun config log outs s →
        s.respond (behaviour rows) = (s', .ok response) →
        EditingRun config (log ++ [⟨⟨response.message, s'.tree⟩, rowOf outs⟩]) outs s'
  | unanswered {log : List Edition} {outs : List Outcome} {s s' : PartSession} (rows : List Row)
      {e : ResponseError} : EditingRun config log outs s →
        s.respond (behaviour rows) = (s', .error e) → EditingRun config log outs s'
  | mark {log : List Edition} {outs : List Outcome} {s : PartSession} (id : ComponentId) :
      EditingRun config log outs s → EditingRun config log outs (s.mark id)
  | call {log : List Edition} {outs : List Outcome} {s s' : PartSession} {id : ComponentId}
      {interface method : String} {args : List Value} : EditingRun config log outs s →
        s.call id interface method args = .ok s' → EditingRun config log outs s'
  | observe {log : List Edition} {outs : List Outcome} {s : PartSession}
      (change : DataChange Row) : EditingRun config log outs s →
        EditingRun config log outs (observeRows change s)

structure Edition.Complete (edition : Edition) : Prop where
  upToDate : edition.commit.tree.UpToDate
  shown : EditorShown edition.commit.tree.children edition.commit.tree.field?
    (notedEditor edition.commit.tree) edition.row
  small : ∀ n, edition.row = some n → n < 2 ^ 32

structure Edited (log : List Edition) (outs : List Outcome) (s : PartSession) : Prop where
  recorded : Recorded (log.map Edition.commit) s
  edits : ∃ editor, Edits s editor (rowOf outs)
  complete : ∀ edition ∈ log, edition.Complete

namespace Edited

variable {log : List Edition} {outs : List Outcome} {s s' : PartSession}

theorem start (config : Config) : Edited [] [] (formSession config) :=
  ⟨recorded_form config, ⟨none, .start config⟩, nofun⟩

/-- operations that write no response -/
theorem acts (h : Edited log outs s) {outs' : List Outcome} (ha : Session.Acts true s s')
    (he : ∃ editor, Edits s' editor (rowOf outs')) : Edited log outs' s' :=
  ⟨h.recorded.acts ha, he, h.complete⟩

theorem receive (h : Edited log outs s) (rows : List Row) (m : ClientMessage) :
    Edited log (outs ++ (s.greet m.lastResponse).outcomes (behaviour rows) m.invocations)
      (s.receive (behaviour rows) m).1 := by
  obtain ⟨editor, hedits⟩ := h.edits
  exact h.acts (Session.acts_receive (regular_behaviour rows) s m) (hedits.receive rows m)

theorem mark (h : Edited log outs s) (id : ComponentId) : Edited log outs (s.mark id) := by
  obtain ⟨editor, hedits⟩ := h.edits
  exact h.acts (Session.acts_of_act (.mark id)) ⟨editor, hedits.mark id⟩

theorem call (h : Edited log outs s) {id : ComponentId} {interface method : String}
    {args : List Value} (hcall : s.call id interface method args = .ok s') :
    Edited log outs s' := by
  obtain ⟨editor, hedits⟩ := h.edits
  exact h.acts (Session.acts_of_act (.call hcall)) ⟨editor, hedits.queue hcall⟩

theorem observe (h : Edited log outs s) (change : DataChange Row) :
    Edited log outs (observeRows change s) := by
  obtain ⟨editor, hedits⟩ := h.edits
  have htree : Tree.Edited s.tree (observeRows change s).tree :=
    Tree.edited_updateAll (edited_observed change) s.tree
  exact ⟨h.recorded.edited htree rfl rfl rfl, ⟨editor, hedits.observe change⟩, h.complete⟩

theorem respond (h : Edited log outs s) {rows : List Row} {response : Response}
    (hr : s.respond (behaviour rows) = (s', .ok response)) :
    Edited (log ++ [⟨⟨response.message, s'.tree⟩, rowOf outs⟩]) outs s' := by
  obtain ⟨editor, hedits⟩ := h.edits
  have hnext := hedits.respond rows
  rw [hr] at hnext
  have hrecorded := h.recorded.respond hr
  rw [← List.map_singleton (f := Edition.commit) (a := ⟨⟨response.message, s'.tree⟩, rowOf outs⟩),
    ← List.map_append] at hrecorded
  refine ⟨hrecorded, ⟨editor, hnext⟩, fun edition hmem => ?_⟩
  rcases List.mem_append.1 hmem with hmem | hmem
  · exact h.complete edition hmem
  · obtain rfl := List.mem_singleton.1 hmem
    refine ⟨hedits.listed.formed.current.upToDate hr, ?_, hnext.small⟩
    rw [hnext.notedEditor_eq]
    exact hnext.shown

theorem unanswered (h : Edited log outs s) {rows : List Row} {e : ResponseError}
    (hr : s.respond (behaviour rows) = (s', .error e)) : Edited log outs s' := by
  obtain ⟨editor, hedits⟩ := h.edits
  have hnext := hedits.respond rows
  rw [hr] at hnext
  exact ⟨h.recorded.unanswered hr, ⟨editor, hnext⟩, h.complete⟩

/-- a client at a place shows what was written there -/
theorem client (h : Edited log outs s) {c : Client} {n : Nat}
    (hc : Reception (log.map Edition.commit) c (some n)) : ∃ edition, log[n]? = some edition ∧
      EditorShown c.replica.children c.replica.field? (notedEditor edition.commit.tree)
        edition.row := by
  have hfaithful := h.recorded.faithful
  obtain ⟨commit, hcommit, hm⟩ := (hc.follows hfaithful).mirrors hfaithful
  rw [List.getElem?_map, Option.map_eq_some_iff] at hcommit
  obtain ⟨edition, hedition, rfl⟩ := hcommit
  have hcomplete := h.complete edition (List.mem_of_getElem? hedition)
  exact ⟨edition, hedition,
    hcomplete.shown.mirrored hcomplete.small (hm.fields_iff.2 hcomplete.upToDate)⟩

end Edited

theorem EditingRun.edited {config : Config} {log : List Edition} {outs : List Outcome}
    {s : PartSession} (h : EditingRun config log outs s) : Edited log outs s := by
  induction h with
  | start => exact .start config
  | receive rows m _ ih => exact ih.receive rows m
  | respond rows _ hr ih => exact ih.respond hr
  | unanswered rows _ hr ih => exact ih.unanswered hr
  | mark id _ ih => exact ih.mark id
  | call _ hcall ih => exact ih.call hcall
  | observe change _ ih => exact ih.observe change

/-- After any messages and responses, also those that failed, the listing of a form has for its
only child the editor of the row that was opened last, if it was not closed since, and every client
that follows the session shows what was open when the response it is at was written. -/
theorem editor_shown {config : Config} {log : List Edition} {outs : List Outcome} {s : PartSession}
    (h : EditingRun config log outs s) :
    EditorShown s.tree.children s.tree.field? (notedEditor s.tree) (rowOf outs) ∧
      ∀ c n, Reception (log.map Edition.commit) c (some n) → ∃ edition, log[n]? = some edition ∧
        EditorShown c.replica.children c.replica.field? (notedEditor edition.commit.tree)
          edition.row := by
  have hedited := h.edited
  obtain ⟨editor, hedits⟩ := hedited.edits
  refine ⟨?_, fun c n hc => hedited.client hc⟩
  rw [hedits.notedEditor_eq]
  exact hedits.shown

/-- editors are opened and closed; one argument is no row, and one number comes twice -/
def editorCalls : List Invocation :=
  [("openEditor", [.ofNat 3], 0), ("closeEditor", [], 1), ("openEditor", [.ofNat 4], 2),
    ("openEditor", [.string "first"], 3), ("openEditor", [.ofNat 5], 4),
    ("closeEditor", [], 4), ("print", [], 5)].map fun (method, args, n) =>
      ⟨Place.listing, Interface.listing, method, args, .ofNat n⟩

theorem rowOf_editorCalls :
    rowOf (((formSession {}).greet none).outcomes (behaviour []) editorCalls) = some 5 := by cbv

theorem editor_shown_rows : ∃ log outs s c, EditingRun {} log outs s ∧
    Reception (log.map Edition.commit) c (some 0) ∧ rowOf outs = some 5 ∧
    EditorShown s.tree.children s.tree.field? (notedEditor s.tree) (some 5) ∧
    ∃ edition, log[0]? = some edition ∧ edition.row = some 5 ∧
      EditorShown c.replica.children c.replica.field? (notedEditor edition.commit.tree)
        (some 5) := by
  have hstart : EditingRun {} [] [] (formSession {}) := .start
  have hreceived := hstart.receive [] ⟨none, editorCalls⟩
  rw [List.nil_append] at hreceived
  have hkept := (Session.acts_receive (regular_behaviour []) (formSession {})
    ⟨none, editorCalls⟩).kept
  obtain ⟨editor, hedits⟩ := hreceived.edited.edits
  obtain ⟨s, response, hr⟩ := hedits.listed.formed.answers []
    (by rw [hkept.config]; decide) (by rw [hkept.config]; rfl)
  have hrun := hreceived.respond [] hr
  obtain ⟨c, hc⟩ := exists_reception hrun.edited.recorded.faithful (Nat.zero_lt_succ _)
  obtain ⟨hshown, hclient⟩ := editor_shown hrun
  obtain ⟨edition, hedition, hmirror⟩ := hclient c 0 hc
  have hrow : edition.row = some 5 := by
    obtain rfl := Option.some.inj hedition
    exact rowOf_editorCalls
  rw [rowOf_editorCalls] at hshown
  rw [hrow] at hmirror
  exact ⟨_, _, s, c, hrun, hc, rowOf_editorCalls, hshown, edition, hedition, hrow, hmirror⟩

end UiSync.Demo
