import UiSync.Proofs.Data.Boards
import UiSync.Proofs.Data.Replacement
import UiSync.Proofs.Data.Wrapping

/-!
# Coherent windows

A list source is watched over a board (`WatchedList`).  Its settings refresh everything by
themselves, its items change silently, and whoever changes them owes the board a change
(`WatchedList.Owes`): one of everything before the next read, or after a replacement one of the new
version.

Such a run keeps a window coherent with the source, up to what is owed (`WatchedList.Settled`, one
step in `WatchedList.Settled.perform`).  So whatever a window is read for is what the source answers
at that moment, and a version of an item that is not on the page changes nothing
(`WatchedList.coherent`).  The demo runs such a list (`Demo.Catalogue.watched_performAll`).
-/

namespace UiSync

/-! ## Windows -/

namespace Window

variable {τ φ : Type}

/-- the window shows what the provider answers, or asks again before it is read -/
def Coherent (w : Window τ φ) (p : Provider τ φ) : Prop :=
  w.stale = true ∨ w.items = p.fetch w.query ∧ w.size = p.size w.query

/-- the window once it is told what it is owed -/
def settle (same : τ → τ → Bool) (owed : Option (DataChange τ)) (w : Window τ φ) : Window τ φ :=
  (owed.map fun change => w.observe same change).getD w

variable {w : Window τ φ} {p : Provider τ φ}

theorem coherent_settle_of_stale (h : w.stale = true) (same : τ → τ → Bool)
    (owed : Option (DataChange τ)) : (w.settle same owed).Coherent p := by
  match owed with
  | none => exact .inl h
  | some .all => exact .inl rfl
  | some (.item _) => exact .inl h

/-- a coherent window that is read shows what the provider answers -/
theorem Coherent.load (h : w.Coherent p) :
    w.load p = ⟨w.query, p.fetch w.query, p.size w.query, false⟩ := by
  obtain ⟨query, items, size, _ | _⟩ := w
  · rcases h with hstale | ⟨hitems, hsize⟩
    · cases hstale
    · obtain rfl : items = p.fetch query := hitems
      obtain rfl : size = p.size query := hsize
      rfl
  · rfl

end Window

/-! ## Watched lists -/

structure WatchedList (τ : Type) where
  source : ListSource τ
  board : Board τ (τ → Bool)

namespace WatchedList

variable {τ : Type}

inductive Act (τ : Type) where
  | watch (w : Watcher)
  | unwatch (name : String)
  | openWindow (name : String) (query : Query τ (τ → Bool))
  | close (name : String)
  | setRange (name : String) (offset limit : Nat)
  | setQuery (name : String) (query : Query τ (τ → Bool))
  | items (name : String)
  | size (name : String)
  | cached (name : String)
  /-- the items change, and no one is told -/
  | edit (items : List τ)
  | setComparator (comparator : Option (Comparator τ))
  | adjust (change : FilterChange τ)
  | refreshAll
  | refreshItem (version : τ)

def fire (s : WatchedList τ) (change : DataChange τ) : WatchedList τ :=
  { s with board := s.board.fire s.source.sameItem change }

def reconfigure (s : WatchedList τ) (f : ListSource τ → ListSource τ) : WatchedList τ :=
  { s with source := f s.source }.fire .all

def load (s : WatchedList τ) (name : String) : WatchedList τ :=
  { s with board := s.board.updateWindow name (·.load s.source.provider) }

def perform (s : WatchedList τ) : Act τ → WatchedList τ
  | .watch w => { s with board := s.board.watch w }
  | .unwatch name => { s with board := s.board.unwatch name }
  | .openWindow name query => { s with board := s.board.openWindow name query }
  | .close name => { s with board := s.board.close name }
  | .setRange name offset limit =>
    { s with board := s.board.updateWindow name (·.setRange offset limit) }
  | .setQuery name query => { s with board := s.board.updateWindow name (·.setQuery query) }
  | .items name => s.load name
  | .size name => s.load name
  | .cached _ => s
  | .edit items => { s with source := s.source.withItems items }
  | .setComparator comparator => s.reconfigure (·.setComparator comparator)
  | .adjust change => s.reconfigure (·.adjust change)
  | .refreshAll => s.fire .all
  | .refreshItem version => s.fire (.item version)

def itemsOf (s : WatchedList τ) (name : String) : Option (List τ) :=
  ((s.perform (.items name)).board.window? name).map Window.items

def sizeOf (s : WatchedList τ) (name : String) : Option Nat :=
  ((s.perform (.size name)).board.window? name).map Window.size

def run (source : ListSource τ) (acts : List (Act τ)) : WatchedList τ :=
  acts.foldl perform ⟨source, ∅⟩

/-! ## What is owed -/

/-- an act that changes no item and no setting, tells no one and does not read this window -/
def Act.Spares (name : String) : Act τ → Prop
  | .items other | .size other => other ≠ name
  | .edit _ | .setComparator _ | .adjust _ | .refreshAll | .refreshItem _ => False
  | _ => True

/-- an act that refreshes everything -/
def Act.Refreshes : Act τ → Prop
  | .setComparator _ | .adjust _ | .refreshAll => True
  | _ => False

/-- no item on the page of the window is one that `v` is a version of -/
def Misses (s : WatchedList τ) (name : String) (v : τ) : Prop :=
  ∀ w, s.board.window? name = some w → ∀ item ∈ w.items, s.source.sameItem item v = false

/-- what the window of a name is owed before and after an act -/
inductive Owes (s : WatchedList τ) (name : String) :
    Option (DataChange τ) → Act τ → Option (DataChange τ) → Prop
  | spared {owed act} : act.Spares name → Owes s name owed act owed
  | items : Owes s name none (.items name) none
  | size : Owes s name none (.size name) none
  /-- the items may change to anything -/
  | edit {owed} (items : List τ) : Owes s name owed (.edit items) (some .all)
  /-- for a replacement that the query of the window does not notice, the new version will do -/
  | replace {before : List τ} {old v : τ} {after : List τ} :
      (∀ w, s.board.window? name = some w → s.source.Replaces w.query before old v after) →
        Owes s name none (.edit (before ++ v :: after)) (some (.item v))
  | refreshItem (v : τ) : Owes s name (some (.item v)) (.refreshItem v) none
  /-- one version does not make up for everything -/
  | refreshSome (v : τ) : Owes s name (some .all) (.refreshItem v) (some .all)
  | refreshMissed {v : τ} : s.Misses name v → Owes s name none (.refreshItem v) none
  /-- a change of everything settles whatever was owed -/
  | refresh {owed act} : act.Refreshes → Owes s name owed act none

/-- a run that pays what it owes before it reads the window of a name -/
inductive Tended (source : ListSource τ) (name : String) :
    List (Act τ) → Option (DataChange τ) → Prop
  | start : Tended source name [] none
  | act {acts owed act owed'} : Tended source name acts owed →
      (run source acts).Owes name owed act owed' → Tended source name (acts ++ [act]) owed'

/-! ## One step -/

variable {s : WatchedList τ} {name : String}

theorem wellKept_perform (h : s.board.WellKept) (act : Act τ) : (s.perform act).board.WellKept := by
  cases act with
  | watch w => exact h.watch w
  | unwatch other => exact h.unwatch other
  | openWindow other query => exact h.openWindow other query
  | close other => exact h.close other
  | setRange other offset limit => exact h.updateWindow other _
  | setQuery other query => exact h.updateWindow other _
  | items other => exact h.updateWindow other _
  | size other => exact h.updateWindow other _
  | cached _ => exact h
  | edit _ => exact h
  | setComparator _ => exact h.fire
  | adjust _ => exact h.fire
  | refreshAll => exact h.fire
  | refreshItem _ => exact h.fire

theorem run_concat (source : ListSource τ) (acts : List (Act τ)) (act : Act τ) :
    run source (acts ++ [act]) = (run source acts).perform act := by
  rw [run, List.foldl_append]
  rfl

theorem wellKept_run (source : ListSource τ) (acts : List (Act τ)) :
    (run source acts).board.WellKept := by
  induction acts using List.reverseRecOn with
  | nil => exact Board.wellKept_empty
  | append_singleton acts act ih =>
    rw [run_concat]
    exact wellKept_perform ih act

theorem window?_fire (h : s.board.WellKept) (change : DataChange τ) (name : String) :
    (s.fire change).board.window? name =
      (s.board.window? name).map (Window.observe s.source.sameItem change) :=
  h.window?_fire name

theorem window?_load_self (s : WatchedList τ) (name : String) :
    (s.load name).board.window? name = (s.board.window? name).map (·.load s.source.provider) :=
  Board.window?_updateWindow_self name _

/-- the window of a name is coherent once it is told what it is owed -/
def Settled (s : WatchedList τ) (name : String) (owed : Option (DataChange τ)) : Prop :=
  ∀ w, s.board.window? name = some w →
    (w.settle s.source.sameItem owed).Coherent s.source.provider

/-- an act that spares a window leaves it as it is, or stale -/
theorem window?_perform_spared (h : s.board.WellKept) {act : Act τ} (hact : act.Spares name)
    {w : Window τ (τ → Bool)} (hw : (s.perform act).board.window? name = some w) :
    w.stale = true ∨ s.board.window? name = some w := by
  have hupdate (other : String) {f : Window τ (τ → Bool) → Window τ (τ → Bool)}
      (hf : ∀ w, (f w).stale = true)
      (hw : (s.board.updateWindow other f).window? name = some w) :
      w.stale = true ∨ s.board.window? name = some w := by
    rcases eq_or_ne name other with rfl | hne
    · rw [Board.window?_updateWindow_self] at hw
      obtain ⟨w', -, rfl⟩ := Option.map_eq_some_iff.1 hw
      exact .inl (hf w')
    · exact .inr ((h.window?_updateWindow_of_ne hne f).symm.trans hw)
  cases act with
  | watch _ => exact .inr hw
  | unwatch other => exact .inr ((Board.window?_unwatch name other).symm.trans hw)
  | openWindow other query =>
    rcases eq_or_ne name other with rfl | hne
    · obtain rfl := Option.some.inj ((h.window?_openWindow_self name query).symm.trans hw)
      exact .inl rfl
    · exact .inr ((h.window?_openWindow_of_ne hne query).symm.trans hw)
  | close other =>
    rcases eq_or_ne name other with rfl | hne
    · cases (Board.window?_close_self name).symm.trans hw
    · exact .inr ((h.window?_close_of_ne hne).symm.trans hw)
  | setRange other offset limit => exact hupdate other (fun _ => rfl) hw
  | setQuery other query => exact hupdate other (fun _ => rfl) hw
  | items other => exact .inr ((h.window?_updateWindow_of_ne (Ne.symm hact) _).symm.trans hw)
  | size other => exact .inr ((h.window?_updateWindow_of_ne (Ne.symm hact) _).symm.trans hw)
  | cached _ => exact .inr hw
  | edit _ => cases hact
  | setComparator _ => cases hact
  | adjust _ => cases hact
  | refreshAll => cases hact
  | refreshItem _ => cases hact

theorem source_perform_spared {act : Act τ} (hact : act.Spares name) :
    (s.perform act).source = s.source := by
  cases act <;> first | rfl | cases hact

/-- a window that is told of a change of everything is stale -/
theorem settled_fire_all (h : s.board.WellKept) (owed : Option (DataChange τ)) :
    (s.fire .all).Settled name owed := by
  intro w hw
  rw [window?_fire h] at hw
  obtain ⟨w', -, rfl⟩ := Option.map_eq_some_iff.1 hw
  exact Window.coherent_settle_of_stale rfl _ _

theorem settled_reconfigure (h : s.board.WellKept) (f : ListSource τ → ListSource τ)
    (owed : Option (DataChange τ)) : (s.reconfigure f).Settled name owed :=
  settled_fire_all (s := { s with source := f s.source }) h owed

theorem Settled.load (h : s.Settled name none) : (s.load name).Settled name none := by
  intro w hw
  rw [window?_load_self] at hw
  obtain ⟨w', hw', rfl⟩ := Option.map_eq_some_iff.1 hw
  have hload : w'.load s.source.provider = _ := (h w' hw').load
  rw [hload]
  exact .inr ⟨rfl, rfl⟩

theorem window?_perform_missed (h : s.board.WellKept) {v : τ} (hv : s.Misses name v) :
    (s.perform (.refreshItem v)).board.window? name = s.board.window? name := by
  refine (window?_fire h _ name).trans ?_
  cases hw : s.board.window? name with
  | none => rfl
  | some w =>
    have hitems : Window.replaceFirst s.source.sameItem v w.items = w.items :=
      Window.replaceFirst_of_absent (hv w hw)
    rw [Option.map_some, Window.observe, hitems]

theorem Settled.perform (h : s.board.WellKept) {owed owed' : Option (DataChange τ)} {act : Act τ}
    (hsettled : s.Settled name owed) (hact : s.Owes name owed act owed') :
    (s.perform act).Settled name owed' := by
  cases hact with
  | spared hspared =>
    intro w hw
    rw [source_perform_spared hspared]
    rcases window?_perform_spared h hspared hw with hstale | hw
    · exact Window.coherent_settle_of_stale hstale _ _
    · exact hsettled w hw
  | items => exact hsettled.load
  | size => exact hsettled.load
  | edit items => exact fun w _ => .inl rfl
  | replace hreplaces =>
    -- the page of the new items is the old page with the version in it, which is what is owed
    intro w hw
    have hreplace := hreplaces w hw
    rcases hsettled w hw with hstale | ⟨hitems, hsize⟩
    · exact .inl hstale
    · refine .inr ⟨?_, hsize.trans hreplace.size.symm⟩
      refine Eq.trans ?_ hreplace.fetch.symm
      exact congrArg _ hitems
  | refreshItem v =>
    intro w hw
    rw [show (s.perform (.refreshItem v)).board.window? name = _ from window?_fire h _ name] at hw
    obtain ⟨w', hw', rfl⟩ := Option.map_eq_some_iff.1 hw
    exact hsettled w' hw'
  | refreshSome v => exact fun w _ => .inl rfl
  | refreshMissed hv =>
    intro w hw
    rw [window?_perform_missed h hv] at hw
    exact hsettled w hw
  | refresh hrefresh =>
    cases act with
    | setComparator _ => exact settled_reconfigure h _ none
    | adjust _ => exact settled_reconfigure h _ none
    | refreshAll => exact settled_fire_all h none
    | _ => cases hrefresh

/-! ## Runs -/

namespace Tended

variable {source : ListSource τ} {acts : List (Act τ)} {owed : Option (DataChange τ)}

theorem settled (h : Tended source name acts owed) : (run source acts).Settled name owed := by
  induction h with
  | start =>
    intro w hw
    cases hw
  | act _ howes ih =>
    rw [run_concat]
    exact ih.perform (wellKept_run source _) howes

/-- a tended run was tended up to each of its acts -/
theorem split (h : Tended source name acts owed) {before after : List (Act τ)} {act : Act τ}
    (he : acts = before ++ act :: after) : ∃ owed owed', Tended source name before owed ∧
      (run source before).Owes name owed act owed' := by
  induction h generalizing after with
  | start => cases before <;> cases he
  | act htended howes ih =>
    rcases concat_eq_append_cons he with ⟨rfl, rfl, -⟩ | ⟨rest, -, he⟩
    · exact ⟨_, _, htended, howes⟩
    · exact ih he

end Tended

/-- nothing is owed to a window that is read -/
theorem Owes.eq_none {owed owed' : Option (DataChange τ)} {act : Act τ}
    (h : s.Owes name owed act owed') (hread : act = .items name ∨ act = .size name) :
    owed = none := by
  rcases hread with rfl | rfl
  · cases h with
    | spared hspared => exact absurd rfl hspared
    | items => rfl
    | refresh hrefresh => cases hrefresh
  · cases h with
    | spared hspared => exact absurd rfl hspared
    | size => rfl
    | refresh hrefresh => cases hrefresh

/-- a window that is read while nothing is owed answers what the source does -/
theorem Settled.window?_load (h : s.Settled name none) : (s.load name).board.window? name =
    (s.board.window? name).map fun w =>
      ⟨w.query, s.source.provider.fetch w.query, s.source.provider.size w.query, false⟩ := by
  rw [window?_load_self]
  exact Option.map_congr fun w hw => (h w hw).load

theorem Tended.loaded {source : ListSource τ} {acts before after : List (Act τ)} {act : Act τ}
    {owed : Option (DataChange τ)} (h : Tended source name acts owed)
    (he : acts = before ++ act :: after) (hread : act = .items name ∨ act = .size name) :
    ((run source before).load name).board.window? name =
      ((run source before).board.window? name).map fun w =>
        ⟨w.query, (run source before).source.provider.fetch w.query,
          (run source before).source.provider.size w.query, false⟩ := by
  obtain ⟨owed, owed', hbefore, howes⟩ := h.split he
  obtain rfl := howes.eq_none hread
  exact hbefore.settled.window?_load

/-- every read of a window in a run answers what the source does at that moment -/
structure Faithful (source : ListSource τ) (name : String) (acts : List (Act τ)) : Prop where
  items : ∀ before after, acts = before ++ .items name :: after →
    (run source before).itemsOf name = ((run source before).board.window? name).map fun w =>
      (run source before).source.provider.fetch w.query
  size : ∀ before after, acts = before ++ .size name :: after →
    (run source before).sizeOf name = ((run source before).board.window? name).map fun w =>
      (run source before).source.provider.size w.query

/-- A run that tends to a window reads from it what the source answers.  After any run, tended or
not, a version of an item that is not on the page leaves the window as it is. -/
theorem coherent (source : ListSource τ) (name : String) (acts : List (Act τ)) :
    (∀ owed, Tended source name acts owed → Faithful source name acts) ∧
      ∀ v, (run source acts).Misses name v →
        ((run source acts).perform (.refreshItem v)).board.window? name =
          (run source acts).board.window? name := by
  refine ⟨fun owed htended => ⟨fun before after he => ?_, fun before after he => ?_⟩,
    fun v hv => window?_perform_missed (wellKept_run source acts) hv⟩
  · show (((run source before).load name).board.window? name).map Window.items = _
    rw [htended.loaded he (.inl rfl), Option.map_map]
    rfl
  · show (((run source before).load name).board.window? name).map Window.size = _
    rw [htended.loaded he (.inr rfl), Option.map_map]
    rfl

/-- numbered tallies below ninety, by their tens -/
def tallies : ListSource (Nat × Nat) where
  items := [(1, 52), (2, 31), (3, 57), (4, 90)]
  comparator := some (compareOn fun a => a.2 / 10)
  filter := some fun a => a.2 < 90
  sameItem a b := a.1 == b.1

def nextTwo : Query (Nat × Nat) (Nat × Nat → Bool) where
  offset := 1
  limit := 2
  sortOrders := []
  comparator := none
  filter := some fun a => a.2 != 0

/-- the third tally is replaced while it is on the page, then all of them -/
def recount : List (Act (Nat × Nat)) := [
  .openWindow "page" nextTwo, .items "page",
  .edit [(1, 52), (2, 31), (3, 55), (4, 90)], .refreshItem (3, 55), .items "page",
  .edit [(5, 10), (6, 20)], .setRange "page" 0 2, .refreshAll, .size "page"]

theorem tended_recount : Tended tallies "page" recount none := by
  have hstart : Tended tallies "page" [] none := .start
  have hopens : (Act.openWindow "page" nextTwo).Spares "page" := trivial
  have hmoves : (Act.setRange "page" 0 2 : Act (Nat × Nat)).Spares "page" := trivial
  have hrefreshes : (Act.refreshAll : Act (Nat × Nat)).Refreshes := trivial
  have hpage : (run tallies (recount.take 2)).board.window? "page" =
      some ⟨nextTwo, [(1, 52), (3, 57)], 3, false⟩ := by cbv
  have hreplaces : tallies.Replaces nextTwo [(1, 52), (2, 31)] (3, 57) (3, 55) [(4, 90)] := {
    items := rfl
    version := rfl
    distinct := by decide
    passes := by decide
    order := by decide }
  have howes : (run tallies (recount.take 2)).Owes "page" none
      (.edit ([(1, 52), (2, 31)] ++ (3, 55) :: [(4, 90)])) (some (.item (3, 55))) :=
    .replace fun w hw => by
      obtain rfl := Option.some.inj (hpage.symm.trans hw)
      exact hreplaces
  have hfirst := (((hstart.act (.spared hopens)).act .items).act howes).act (.refreshItem (3, 55))
  have hsecond := ((hfirst.act .items).act (.edit [(5, 10), (6, 20)])).act (.spared hmoves)
  exact (hsecond.act (.refresh hrefreshes)).act .size

theorem coherent_recount : Tended tallies "page" recount none ∧
    Faithful tallies "page" recount ∧
    (run tallies (recount.take 4)).itemsOf "page" = some [(1, 52), (3, 55)] ∧
    (run tallies (recount.take 8)).sizeOf "page" = some 2 ∧
    (run tallies recount).Misses "page" (7, 10) ∧
    ((run tallies recount).perform (.refreshItem (7, 10))).board.window? "page" =
      (run tallies recount).board.window? "page" := by
  have hpage : (run tallies recount).board.window? "page" =
      some ⟨nextTwo.withRange 0 2, [(5, 10), (6, 20)], 2, false⟩ := by cbv
  have hmisses : (run tallies recount).Misses "page" (7, 10) := by
    intro w hw
    obtain rfl := Option.some.inj (hpage.symm.trans hw)
    decide
  obtain ⟨hfaithful, hmissed⟩ := coherent tallies "page" recount
  exact ⟨tended_recount, hfaithful none tended_recount, by cbv, by cbv, hmisses,
    hmissed (7, 10) hmisses⟩

end WatchedList

/-! ## The demo catalogue -/

namespace Demo.Catalogue

variable (c : Catalogue (Item → Bool))

def watched : WatchedList Item := ⟨c.stock.listSource, c.board⟩

def perform : WatchedList.Act Item → Catalogue (Item → Bool)
  | .watch w => { c with board := c.board.watch w }
  | .unwatch name => { c with board := c.board.unwatch name }
  | .openWindow name query => { c with board := c.board.openWindow name query }
  | .close name => { c with board := c.board.close name }
  | .setRange name offset limit =>
    { c with board := c.board.updateWindow name (·.setRange offset limit) }
  | .setQuery name query => { c with board := c.board.updateWindow name (·.setQuery query) }
  | .items name => (c.readWindow Stock.list name).1
  | .size name => (c.readWindow Stock.list name).1
  | .cached _ => c
  | .edit items => c.updateItems fun _ => items
  | .setComparator comparator => c.reconfigure (·.updateList (·.setComparator comparator))
  | .adjust change => c.reconfigure (·.updateList (·.adjust change))
  | .refreshAll => c.fire .all
  | .refreshItem version => c.fire (.item version)

theorem watched_perform (act : WatchedList.Act Item) :
    (c.perform act).watched = c.watched.perform act := by
  cases act with
  | adjust change => cases change <;> rfl
  | _ => rfl

theorem watched_performAll (acts : List (WatchedList.Act Item)) :
    (acts.foldl perform c).watched = acts.foldl WatchedList.perform c.watched := by
  induction acts generalizing c with
  | nil => rfl
  | cons act acts ih => rw [List.foldl_cons, List.foldl_cons, ih, watched_perform]

/-- what is read from a window of the catalogue is what the watched list answers -/
theorem readWindow_list (name : String) :
    (c.readWindow Stock.list name).2.map Window.items = c.watched.itemsOf name ∧
      (c.readWindow Stock.list name).2.map Window.size = c.watched.sizeOf name := ⟨rfl, rfl⟩

end Demo.Catalogue

end UiSync
