import UiSync.Proofs.Data.Listening

/-!
# What a board tells its audience

Everything done with a board is logged as steps of its listeners (`Board.journal`): a window that is
opened is a registration, one that is closed is a removal, and so is a name that a watcher takes out
when it is told (`Board.events`).

So what is proved of all runs of listeners holds of boards: a change is told to exactly those that
were registered when it came, each once and in order, and as many are registered as there are open
windows and watchers that were not taken out (`registered_called`).
-/

namespace UiSync

open Listening

variable {τ φ : Type}

namespace Board

inductive Act (τ φ : Type) where
  | watch (w : Watcher)
  | unwatch (name : String)
  | openWindow (name : String) (query : Query τ φ)
  | close (name : String)
  /-- a window is read, or its query changes -/
  | update (name : String) (f : Window τ φ → Window τ φ)
  | fire (same : τ → τ → Bool) (change : DataChange τ)

def perform (b : Board τ φ) : Act τ φ → Board τ φ
  | .watch w => b.watch w
  | .unwatch name => b.unwatch name
  | .openWindow name query => b.openWindow name query
  | .close name => b.close name
  | .update name f => b.updateWindow name f
  | .fire same change => b.fire same change

/-! ## Events -/

def removal (key : Option Nat) : List (Event Subscriber τ) := key.toList.map .removed

/-- what is logged of one that is told -/
def reaction (b : Board τ φ) (entry : Nat × Subscriber) : List (Event Subscriber τ) :=
  match entry.2 with
  | .window => []
  | .watcher w => removal (w.removes.bind b.watcherKeys.get?)

/-- what is logged of the rest of a round -/
def telling (same : τ → τ → Bool) (change : DataChange τ) (round : Nat) :
    List (Nat × Subscriber) → Board τ φ → List (Event Subscriber τ)
  | [], _ => []
  | entry :: entries, b => .called round change entry ::
      (b.reaction entry ++ telling same change round entries (b.notify same change entry))

/-- what is logged of an act after which `fired` changes came already -/
def events (b : Board τ φ) (fired : Nat) : Act τ φ → List (Event Subscriber τ)
  | .watch w => [.added (b.listeners.add (.watcher w)).1 (.watcher w)]
  | .unwatch name => removal (b.watcherKeys.get? name)
  | .openWindow name _ =>
    .added (b.listeners.add .window).1 .window :: removal (b.windowKeys.get? name)
  | .close name => removal (b.windowKeys.get? name)
  | .update _ _ => []
  | .fire same change => .fired change :: telling same change fired b.listeners.entries b

structure Journal (τ φ : Type) where
  board : Board τ φ
  log : List (Event Subscriber τ)

def Journal.perform (j : Journal τ φ) (act : Act τ φ) : Journal τ φ :=
  ⟨j.board.perform act, j.log ++ j.board.events (firedIn j.log) act⟩

def journal (acts : List (Act τ φ)) : Journal τ φ := acts.foldl Journal.perform ⟨∅, []⟩

theorem journal_concat (acts : List (Act τ φ)) (act : Act τ φ) :
    journal (acts ++ [act]) = (journal acts).perform act := by
  rw [journal, List.foldl_append]
  rfl

/-! ## The events are steps -/

def takeOut (ls : Listeners Subscriber) (key : Option Nat) : Listeners Subscriber :=
  (key.map ls.remove).getD ls

variable {b : Board τ φ} {same : τ → τ → Bool} {change : DataChange τ}

theorem runs_removal (ls : Listeners Subscriber) (key : Option Nat)
    (rounds : List (Round Subscriber τ)) :
    Runs ⟨ls, rounds⟩ (removal key) ⟨takeOut ls key, rounds⟩ := by
  cases key with
  | none => exact .refl _
  | some key => exact (Logs.remove (s := ⟨ls, rounds⟩) key).runs

theorem listeners_unwatch (name : String) :
    (b.unwatch name).listeners = takeOut b.listeners (b.watcherKeys.get? name) := by
  unfold Board.unwatch takeOut
  cases b.watcherKeys.get? name <;> rfl

theorem listeners_close (name : String) :
    (b.close name).listeners = takeOut b.listeners (b.windowKeys.get? name) := by
  unfold Board.close takeOut
  cases b.windowKeys.get? name <;> rfl

theorem listeners_openWindow (name : String) (query : Query τ φ) :
    (b.openWindow name query).listeners =
      takeOut (b.listeners.add .window).2 (b.windowKeys.get? name) :=
  listeners_close (b := b.enter query) name

theorem listeners_updateWindow (name : String) (f : Window τ φ → Window τ φ) :
    (b.updateWindow name f).listeners = b.listeners := by
  unfold Board.updateWindow
  cases b.windowKeys.get? name <;> rfl

theorem runs_reaction (entry : Nat × Subscriber) (rounds : List (Round Subscriber τ)) :
    Runs ⟨b.listeners, rounds⟩ (b.reaction entry)
      ⟨(b.notify same change entry).listeners, rounds⟩ := by
  obtain ⟨key, _ | w⟩ := entry
  · exact .refl _
  · have hreaction : b.reaction (key, .watcher w) =
        (removal (w.removes.bind b.watcherKeys.get?) : List (Event Subscriber τ)) := rfl
    rw [notify_watcher, hreaction]
    cases w.removes with
    | none => exact .refl _
    | some name =>
      show Runs _ _ ⟨((b.note w change).unwatch name).listeners, rounds⟩
      rw [listeners_unwatch]
      exact runs_removal b.listeners (b.watcherKeys.get? name) rounds

theorem runs_telling (entries : List (Nat × Subscriber)) (b : Board τ φ)
    (rounds : List (Round Subscriber τ)) :
    Runs ⟨b.listeners, rounds ++ [⟨change, entries⟩]⟩ (telling same change rounds.length entries b)
      ⟨(entries.foldl (notify same change) b).listeners, rounds ++ [⟨change, []⟩]⟩ := by
  induction entries generalizing b with
  | nil => exact .refl _
  | cons entry entries ih =>
    have hcall := logs_next b.listeners rounds [] change entry entries
    exact .head hcall ((runs_reaction entry _).trans (ih (b.notify same change entry)))

/-- an act is a run of its events, and its round comes to an end -/
theorem runs_perform (b : Board τ φ) (act : Act τ φ) (rounds : List (Round Subscriber τ)) :
    ∃ more, Runs ⟨b.listeners, rounds⟩ (b.events rounds.length act)
      ⟨(b.perform act).listeners, rounds ++ more⟩ ∧ Over more := by
  have hsame {log : List (Event Subscriber τ)} {ls : Listeners Subscriber}
      (h : Runs ⟨b.listeners, rounds⟩ log ⟨ls, rounds⟩) :
      ∃ more, Runs ⟨b.listeners, rounds⟩ log ⟨ls, rounds ++ more⟩ ∧ Over more :=
    ⟨[], by rwa [List.append_nil], over_nil⟩
  cases act with
  | watch w => exact hsame (Logs.add (s := ⟨b.listeners, rounds⟩) (.watcher w)).runs
  | unwatch name =>
    refine hsame ?_
    show Runs _ _ ⟨(b.unwatch name).listeners, rounds⟩
    rw [listeners_unwatch]
    exact runs_removal _ _ _
  | openWindow name query =>
    refine hsame ?_
    show Runs _ _ ⟨(b.openWindow name query).listeners, rounds⟩
    rw [listeners_openWindow]
    exact .head (Logs.add (s := ⟨b.listeners, rounds⟩) .window) (runs_removal _ _ _)
  | close name =>
    refine hsame ?_
    show Runs _ _ ⟨(b.close name).listeners, rounds⟩
    rw [listeners_close]
    exact runs_removal _ _ _
  | update name f =>
    refine hsame ?_
    show Runs _ _ ⟨(b.updateWindow name f).listeners, rounds⟩
    rw [listeners_updateWindow]
    exact .refl _
  | fire same change =>
    have hfire := Logs.fire (s := ⟨b.listeners, rounds⟩) change
    exact ⟨[⟨change, []⟩], .head hfire (runs_telling b.listeners.entries b rounds),
      List.forall_mem_singleton.2 rfl⟩

theorem runs_journal (acts : List (Act τ φ)) : ∃ rounds,
    Runs .new (journal acts).log ⟨(journal acts).board.listeners, rounds⟩ ∧ Over rounds := by
  induction acts using List.reverseRecOn with
  | nil => exact ⟨[], .refl _, over_nil⟩
  | append_singleton acts act ih =>
    obtain ⟨rounds, hruns, hover⟩ := ih
    obtain ⟨more, hact, hmore⟩ := runs_perform (journal acts).board act rounds
    have hfired : firedIn (journal acts).log = rounds.length := hruns.keeps.2.fired
    rw [journal_concat, Journal.perform, hfired]
    exact ⟨rounds ++ more, hruns.trans hact, over_append hover hmore⟩

/-! ## What watchers write down -/

/-- what the watchers that were called write down -/
def toldIn (log : List (Event Subscriber τ)) : List (String × DataChange τ) :=
  log.filterMap fun
    | .called _ change (_, .watcher w) => some (w.name, change)
    | _ => none

theorem toldIn_append (log more : List (Event Subscriber τ)) :
    toldIn (log ++ more) = toldIn log ++ toldIn more := List.filterMap_append

theorem toldIn_removal (key : Option Nat) :
    toldIn (removal key : List (Event Subscriber τ)) = [] := by
  cases key <;> rfl

theorem told_unwatch (name : String) : (b.unwatch name).told = b.told := by
  unfold Board.unwatch
  cases b.watcherKeys.get? name <;> rfl

theorem told_close (name : String) : (b.close name).told = b.told := by
  unfold Board.close
  cases b.windowKeys.get? name <;> rfl

theorem told_updateWindow (name : String) (f : Window τ φ → Window τ φ) :
    (b.updateWindow name f).told = b.told := by
  unfold Board.updateWindow
  cases b.windowKeys.get? name <;> rfl

theorem told_notify (round : Nat) (entry : Nat × Subscriber) :
    (b.notify same change entry).told =
      b.told ++ toldIn (.called round change entry :: b.reaction entry) := by
  obtain ⟨key, _ | w⟩ := entry
  · exact (List.append_nil _).symm
  · have hlog : toldIn (.called round change (key, .watcher w) :: b.reaction (key, .watcher w)) =
        (w.name, change) :: toldIn (removal (w.removes.bind b.watcherKeys.get?)) := rfl
    rw [hlog, toldIn_removal, notify_watcher]
    cases w.removes with
    | none => rfl
    | some name => exact told_unwatch (b := b.note w change) name

theorem told_tell (round : Nat) (entries : List (Nat × Subscriber)) (b : Board τ φ) :
    (entries.foldl (notify same change) b).told =
      b.told ++ toldIn (telling same change round entries b) := by
  induction entries generalizing b with
  | nil => exact (List.append_nil _).symm
  | cons entry entries ih =>
    rw [List.foldl_cons, ih, told_notify round, List.append_assoc, ← toldIn_append]
    rfl

theorem told_perform (b : Board τ φ) (fired : Nat) (act : Act τ φ) :
    (b.perform act).told = b.told ++ toldIn (b.events fired act) := by
  cases act with
  | watch w => exact (List.append_nil _).symm
  | unwatch name =>
    show (b.unwatch name).told = _ ++ toldIn (removal _)
    rw [told_unwatch, toldIn_removal, List.append_nil]
  | openWindow name query =>
    show ((b.enter query).close name).told = _ ++ toldIn (removal (b.windowKeys.get? name))
    rw [told_close, toldIn_removal, List.append_nil]
    rfl
  | close name =>
    show (b.close name).told = _ ++ toldIn (removal _)
    rw [told_close, toldIn_removal, List.append_nil]
  | update name f =>
    show (b.updateWindow name f).told = _ ++ toldIn []
    rw [told_updateWindow]
    exact (List.append_nil _).symm
  | fire same change => exact told_tell fired b.listeners.entries b

theorem told_journal (acts : List (Act τ φ)) :
    (journal acts).board.told = toldIn (journal acts).log := by
  induction acts using List.reverseRecOn with
  | nil => rfl
  | append_singleton acts act ih =>
    rw [journal_concat, Journal.perform, told_perform, ih, toldIn_append]

/-! ## Windows and watchers -/

def windowsIn (entries : List (Nat × Subscriber)) : List Nat :=
  entries.filterMap fun
    | (key, .window) => some key
    | (_, .watcher _) => none

def watchersIn (entries : List (Nat × Subscriber)) : List (Nat × Watcher) :=
  entries.filterMap fun
    | (_, .window) => none
    | (key, .watcher w) => some (key, w)

theorem mem_windowsIn {entries : List (Nat × Subscriber)} {key : Nat} :
    key ∈ windowsIn entries ↔ (key, .window) ∈ entries := by
  rw [windowsIn, List.mem_filterMap]
  constructor
  · rintro ⟨⟨key', _ | w⟩, hmem, he⟩
    · cases he
      exact hmem
    · cases he
  · exact fun hmem => ⟨_, hmem, rfl⟩

theorem length_windowsIn_add (entries : List (Nat × Subscriber)) :
    (windowsIn entries).length + (watchersIn entries).length = entries.length := by
  induction entries with
  | nil => rfl
  | cons entry entries ih =>
    obtain ⟨key, _ | w⟩ := entry
    · show (windowsIn entries).length + 1 + (watchersIn entries).length = entries.length + 1
      omega
    · show (windowsIn entries).length + ((watchersIn entries).length + 1) = entries.length + 1
      omega

def AllOpen (b : Board τ φ) : Prop :=
  ∀ key, (key, .window) ∈ b.listeners.entries → ∃ w, b.windows.get? key = some w

theorem AllOpen.modifyWindow (h : b.AllOpen) (key : Nat) (f : Window τ φ → Window τ φ) :
    (b.modifyWindow key f).AllOpen := by
  intro key' hmem
  obtain ⟨w, hw⟩ := h key' hmem
  show ∃ w, (b.windows.modify key f).get? key' = some w
  rcases eq_or_ne key' key with rfl | hne
  · rw [Dict.get?_modify_self, hw]
    exact ⟨_, rfl⟩
  · rw [Dict.get?_modify_of_ne hne]
    exact ⟨w, hw⟩

theorem AllOpen.updateWindow (h : b.AllOpen) (name : String) (f : Window τ φ → Window τ φ) :
    (b.updateWindow name f).AllOpen := by
  unfold Board.updateWindow
  cases b.windowKeys.get? name with
  | none => exact h
  | some key => exact h.modifyWindow key f

theorem AllOpen.unwatch (h : b.AllOpen) (name : String) : (b.unwatch name).AllOpen := by
  unfold Board.unwatch
  cases b.watcherKeys.get? name with
  | none => exact h
  | some key => exact fun key' hmem => h key' (Listeners.mem_remove.1 hmem).1

theorem AllOpen.close (h : b.AllOpen) (name : String) : (b.close name).AllOpen := by
  unfold Board.close
  cases b.windowKeys.get? name with
  | none => exact h
  | some key =>
    intro key' hmem
    obtain ⟨hmem, hne⟩ := Listeners.mem_remove.1 hmem
    obtain ⟨w, hw⟩ := h key' hmem
    exact ⟨w, Dict.get?_erase_eq_some.2 ⟨hne, hw⟩⟩

theorem AllOpen.enter (h : b.AllOpen) (query : Query τ φ) : (b.enter query).AllOpen := by
  intro key hmem
  rcases eq_or_ne key (b.listeners.lastKey + 1) with rfl | hne
  · exact ⟨_, Dict.get?_insert_self ..⟩
  · rcases Listeners.mem_add.1 hmem with hmem | he
    · obtain ⟨w, hw⟩ := h key hmem
      exact ⟨w, (Dict.get?_insert_of_ne hne _ _).trans hw⟩
    · exact absurd (congrArg Prod.fst he) hne

theorem AllOpen.watch (h : b.AllOpen) (w : Watcher) : (b.watch w).AllOpen := by
  intro key hmem
  rcases Listeners.mem_add.1 hmem with hmem | he
  · exact h key hmem
  · cases he

theorem AllOpen.notify (h : b.AllOpen) (entry : Nat × Subscriber) :
    (b.notify same change entry).AllOpen := by
  obtain ⟨key, _ | w⟩ := entry
  · exact h.modifyWindow key _
  · have hnoted : (b.note w change).AllOpen := h
    rw [notify_watcher]
    cases w.removes with
    | none => exact hnoted
    | some name => exact hnoted.unwatch name

theorem AllOpen.fire (h : b.AllOpen) : (b.fire same change).AllOpen := by
  have htell (entries : List (Nat × Subscriber)) :
      (entries.foldl (Board.notify same change) b).AllOpen := by
    induction entries generalizing b with
    | nil => exact h
    | cons entry entries ih => exact ih (h.notify entry)
  exact htell b.listeners.entries

theorem kept_journal (acts : List (Act τ φ)) :
    (journal acts).board.WellKept ∧ (journal acts).board.AllOpen := by
  induction acts using List.reverseRecOn with
  | nil => exact ⟨wellKept_empty, fun _ hmem => by cases hmem⟩
  | append_singleton acts act ih =>
    obtain ⟨hkept, hopen⟩ := ih
    rw [journal_concat]
    cases act with
    | watch w => exact ⟨hkept.watch w, hopen.watch w⟩
    | unwatch name => exact ⟨hkept.unwatch name, hopen.unwatch name⟩
    | openWindow name query =>
      have hentered : ((journal acts).board.enter query).AllOpen := hopen.enter query
      exact ⟨hkept.openWindow name query, hentered.close name⟩
    | close name => exact ⟨hkept.close name, hopen.close name⟩
    | update name f => exact ⟨hkept.updateWindow name f, hopen.updateWindow name f⟩
    | fire same change => exact ⟨hkept.fire, hopen.fire⟩

/-- the open windows are those that are registered -/
theorem keys_windows (hkept : b.WellKept) (hopen : b.AllOpen) :
    b.windows.keys = windowsIn b.listeners.entries := by
  have hkeys : b.windows.keys.Pairwise (· < ·) := by
    rw [Dict.keys, List.pairwise_map]
    exact b.windows.sorted.imp Nat.compare_eq_lt.1
  have hentries : (windowsIn b.listeners.entries).Pairwise (· < ·) := by
    refine hkept.ascending.ordered.filterMap _ fun e f hlt key hkey key' hkey' => ?_
    obtain ⟨k, _ | w⟩ := e
    · obtain ⟨k', _ | w'⟩ := f
      · cases hkey
        cases hkey'
        exact hlt
      · cases hkey'
    · cases hkey
  refine hkeys.eq_of_mem_iff hentries fun key => ?_
  rw [Dict.mem_keys, mem_windowsIn]
  constructor
  · rintro ⟨w, hw⟩
    exact hkept.registered hw
  · exact hopen key

/-! ## Every board -/

def performAll (acts : List (Act τ φ)) : Board τ φ := acts.foldl perform ∅

theorem board_journal (acts : List (Act τ φ)) : (journal acts).board = performAll acts := by
  induction acts using List.reverseRecOn with
  | nil => rfl
  | append_singleton acts act ih =>
    rw [journal_concat, performAll, List.foldl_append, ← performAll, ← ih]
    rfl

/-- what is so of a new board after some acts, `log` being what was logged of them -/
structure Accounted (acts : List (Act τ φ)) (log : List (Event Subscriber τ)) : Prop where
  /-- the log is a run of the listeners, and every change was told to its end -/
  runs : ∃ rounds, Runs .new log ⟨(performAll acts).listeners, rounds⟩ ∧ Over rounds
  calls : ∀ before change after, log = before ++ .fired change :: after →
    callsIn (firedIn before) log = (registered before).map (change, ·)
  /-- watchers wrote down the changes they were called for -/
  told : (performAll acts).told = toldIn log
  /-- an open window is told of a change once -/
  observed : ∀ same change name, ((performAll acts).fire same change).window? name =
    ((performAll acts).window? name).map (Window.observe same change)
  /-- the registered windows are those that were opened and not closed -/
  windows : (performAll acts).windows.keys = windowsIn (registered log)
  size : (performAll acts).listeners.size =
    (performAll acts).windows.size + (watchersIn (registered log)).length

theorem accounted_journal (acts : List (Act τ φ)) : Accounted acts (journal acts).log := by
  obtain ⟨rounds, hruns, hover⟩ := runs_journal acts
  obtain ⟨hkept, hopen⟩ := kept_journal acts
  have htold := told_journal acts
  rw [board_journal] at hruns hkept hopen htold
  obtain ⟨henrolled, hpaired⟩ := hruns.keeps
  have hwindows := keys_windows hkept hopen
  rw [henrolled.entries] at hwindows
  constructor
  case runs =>
    exact ⟨rounds, hruns, hover⟩
  case calls =>
    intro before change after hsplit
    obtain ⟨rest, hround, hcalls⟩ := hpaired.calls hsplit
    obtain rfl : rest = [] := hover _ (List.mem_of_getElem? hround)
    rwa [List.map_nil, List.append_nil] at hcalls
  case told =>
    exact htold
  case observed =>
    intro same change name
    exact hkept.window?_fire name
  case windows =>
    exact hwindows
  case size =>
    have hsize : (performAll acts).windows.size =
        (windowsIn (registered (journal acts).log)).length := by
      rw [← hwindows, Dict.keys, List.length_map]
      rfl
    rw [Listeners.size, henrolled.entries, hsize, length_windowsIn_add]

end Board

/-- However listeners come and go, also while they are being called, a change is told to those that
were registered when it came, each once and in order, and a key takes out its own registration only.
What is done with a board is such a run, with windows for registrations. -/
theorem registered_called {ℓ : Type} {log : List (Event ℓ τ)} {s : Listening ℓ τ}
    (h : Runs .new log s) (acts : List (Board.Act τ φ)) :
    Exact log s ∧ Board.Accounted acts (Board.journal acts).log :=
  ⟨h.exact, Board.accounted_journal acts⟩

/-! ### A change within a change -/

namespace Listening

/-- a listener that is there twice; when its first registration is called, it adds another listener,
drops the window and fires again, and in that second round its other registration is taken out -/
def changeInChange : List (Event Subscriber Nat) :=
  let twice : Subscriber := .watcher ⟨"twice", none⟩
  let late : Subscriber := .watcher ⟨"late", none⟩
  [.added 1 twice, .added 2 twice, .added 3 .window, .fired .all, .called 0 .all (1, twice),
    .added 4 late, .removed 3, .fired (.item 7), .called 1 (.item 7) (1, twice), .removed 2,
    .called 1 (.item 7) (2, twice), .called 1 (.item 7) (4, late), .called 0 .all (2, twice),
    .called 0 .all (3, .window)]

def afterChangeInChange : Listening Subscriber Nat where
  listeners := ⟨[(1, .watcher ⟨"twice", none⟩), (4, .watcher ⟨"late", none⟩)], 4⟩
  rounds := [⟨.all, []⟩, ⟨.item 7, []⟩]

theorem runs_changeInChange : Runs .new changeInChange afterChangeInChange := by
  have hadded := (((Runs.refl (.new : Listening Subscriber Nat)).tail
    (.add (.watcher ⟨"twice", none⟩))).tail (.add (.watcher ⟨"twice", none⟩))).tail (.add .window)
  have hfired := (hadded.tail (.fire .all)).tail (.call (n := 0) rfl)
  have hagain := ((hfired.tail (.add (.watcher ⟨"late", none⟩))).tail (.remove 3)).tail
    (.fire (.item 7))
  have hsecond := (((hagain.tail (.call (n := 1) rfl)).tail (.remove 2)).tail
    (.call (n := 1) rfl)).tail (.call (n := 1) rfl)
  exact (hsecond.tail (.call (n := 0) rfl)).tail (.call (n := 0) rfl)

end Listening

/-- a watcher that takes another one out, and a window that is opened twice -/
def Board.visits : List (Act Nat Unit) := [
  .watch ⟨"first", some "second"⟩, .watch ⟨"second", none⟩, .openWindow "page" .all,
  .openWindow "page" .all, .fire (· == ·) .all, .close "page", .fire (· == ·) (.item 7)]

theorem registered_called_nested : Runs .new changeInChange afterChangeInChange ∧
    Exact changeInChange afterChangeInChange ∧
    callsIn 0 changeInChange = [(.all, (1, .watcher ⟨"twice", none⟩)),
      (.all, (2, .watcher ⟨"twice", none⟩)), (.all, (3, .window))] ∧
    Board.Accounted Board.visits (Board.journal Board.visits).log ∧
    (Board.performAll Board.visits).told =
      [("first", .all), ("second", .all), ("first", .item 7)] := by
  obtain ⟨hexact, haccounted⟩ := registered_called runs_changeInChange Board.visits
  exact ⟨runs_changeInChange, hexact, rfl, haccounted, by cbv⟩

end UiSync
