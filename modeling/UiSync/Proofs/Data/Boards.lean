import UiSync.Data.Board
import UiSync.Proofs.Dict

/-!
# Windows on a board

Listeners get keys that go up (`Listeners.Ascending`), and on a board a name stands for the key of
one window (`Board.WellKept`); every act on a board keeps it so.  So what one window is told, asked
or changed to leaves every other one alone, and a change reaches each open window exactly once
(`Board.WellKept.window?_fire`), whatever watchers take out meanwhile.
-/

namespace UiSync

/-! ## Listeners -/

namespace Listeners

variable {ℓ : Type} {ls : Listeners ℓ}

structure Ascending (ls : Listeners ℓ) : Prop where
  ordered : ls.entries.Pairwise fun e f => e.1 < f.1
  bounded : ∀ e ∈ ls.entries, e.1 ≤ ls.lastKey

theorem mem_add {listener : ℓ} {e : Nat × ℓ} : e ∈ (ls.add listener).2.entries ↔
    e ∈ ls.entries ∨ e = (ls.lastKey + 1, listener) := by
  rw [add, List.mem_append, List.mem_singleton]

theorem mem_remove {key : Nat} {e : Nat × ℓ} :
    e ∈ (ls.remove key).entries ↔ e ∈ ls.entries ∧ e.1 ≠ key := by
  rw [remove, List.mem_filter, bne_iff_ne]

theorem ascending_empty : (∅ : Listeners ℓ).Ascending where
  ordered := .nil
  bounded e he := by cases he

theorem Ascending.add (h : ls.Ascending) (listener : ℓ) : (ls.add listener).2.Ascending where
  ordered := by
    refine List.pairwise_append.2 ⟨h.ordered, List.pairwise_singleton _ _, fun e he f hf => ?_⟩
    rw [List.mem_singleton.1 hf]
    exact Nat.lt_succ_of_le (h.bounded e he)
  bounded e he := by
    rcases mem_add.1 he with he | rfl
    · exact Nat.le_succ_of_le (h.bounded e he)
    · exact Nat.le_refl _

theorem Ascending.remove (h : ls.Ascending) (key : Nat) : (ls.remove key).Ascending where
  ordered := h.ordered.filter _
  bounded e he := h.bounded e (mem_remove.1 he).1

end Listeners

namespace Board

variable {τ φ : Type}

structure WellKept (b : Board τ φ) : Prop where
  ascending : b.listeners.Ascending
  registered : ∀ {key w}, b.windows.get? key = some w → (key, .window) ∈ b.listeners.entries
  /-- what the name of a watcher takes out is no window -/
  watching : ∀ {name key}, b.watcherKeys.get? name = some key →
    key ≤ b.listeners.lastKey ∧ (key, .window) ∉ b.listeners.entries
  named : ∀ {name key}, b.windowKeys.get? name = some key → key ≤ b.listeners.lastKey
  /-- no two names stand for one window -/
  apart : ∀ {name other key}, b.windowKeys.get? name = some key →
    b.windowKeys.get? other = some key → other = name

theorem wellKept_empty : (∅ : Board τ φ).WellKept where
  ascending := Listeners.ascending_empty
  registered h := by cases h
  watching h := by cases h
  named h := by cases h
  apart h := by cases h

variable {b : Board τ φ}

/-! ## Watchers -/

theorem WellKept.watch (hb : b.WellKept) (w : Watcher) : (b.watch w).WellKept where
  ascending := hb.ascending.add _
  registered h := Listeners.mem_add.2 (.inl (hb.registered h))
  watching {name key} h := by
    have hold : key ≤ b.listeners.lastKey + 1 ∧ (key, .window) ∉ b.listeners.entries := by
      rcases Dict.get?_insert_eq_some.1 h with ⟨rfl, rfl⟩ | ⟨-, h⟩
      · exact ⟨Nat.le_refl _, fun hmem => Nat.not_succ_le_self _ (hb.ascending.bounded _ hmem)⟩
      · exact ⟨Nat.le_succ_of_le (hb.watching h).1, (hb.watching h).2⟩
    refine ⟨hold.1, fun hmem => ?_⟩
    rcases Listeners.mem_add.1 hmem with hmem | hmem
    · exact hold.2 hmem
    · cases hmem
  named h := Nat.le_succ_of_le (hb.named h)
  apart := hb.apart

theorem WellKept.unwatch (hb : b.WellKept) (name : String) : (b.unwatch name).WellKept := by
  unfold Board.unwatch
  cases hkey : b.watcherKeys.get? name with
  | none => exact hb
  | some key =>
    exact {
      ascending := hb.ascending.remove key
      registered := fun h => Listeners.mem_remove.2 ⟨hb.registered h, by
        -- the key of a watcher, and so no window is open under it
        rintro rfl
        exact (hb.watching hkey).2 (hb.registered h)⟩
      watching := fun h => by
        obtain ⟨hle, hnot⟩ := hb.watching (Dict.get?_erase_eq_some.1 h).2
        exact ⟨hle, fun hmem => hnot (Listeners.mem_remove.1 hmem).1⟩
      named := hb.named
      apart := hb.apart }

/-- taking out a watcher touches no window -/
theorem windows_unwatch (name : String) : (b.unwatch name).windows = b.windows ∧
    (b.unwatch name).windowKeys = b.windowKeys := by
  unfold Board.unwatch
  cases b.watcherKeys.get? name <;> exact ⟨rfl, rfl⟩

theorem window?_unwatch (name other : String) : (b.unwatch other).window? name = b.window? name := by
  rw [window?, (windows_unwatch other).1, (windows_unwatch other).2, window?]

/-! ## Windows -/

theorem window?_eq_some {name : String} {w : Window τ φ} : b.window? name = some w ↔
    ∃ key, b.windowKeys.get? name = some key ∧ b.windows.get? key = some w :=
  Option.bind_eq_some_iff

def modifyWindow (b : Board τ φ) (key : Nat) (f : Window τ φ → Window τ φ) : Board τ φ :=
  { b with windows := b.windows.modify key f }

theorem WellKept.modifyWindow (hb : b.WellKept) (key : Nat) (f : Window τ φ → Window τ φ) :
    (b.modifyWindow key f).WellKept where
  ascending := hb.ascending
  registered {key' w} h := by
    rcases eq_or_ne key' key with rfl | hne
    · obtain ⟨w', h', -⟩ := Option.map_eq_some_iff.1 ((Dict.get?_modify_self _ _ f).symm.trans h)
      exact hb.registered h'
    · exact hb.registered ((Dict.get?_modify_of_ne hne _ f).symm.trans h)
  watching := hb.watching
  named := hb.named
  apart := hb.apart

theorem WellKept.updateWindow (hb : b.WellKept) (name : String) (f : Window τ φ → Window τ φ) :
    (b.updateWindow name f).WellKept := by
  unfold Board.updateWindow
  cases b.windowKeys.get? name with
  | none => exact hb
  | some key => exact hb.modifyWindow key f

theorem window?_updateWindow_self (name : String) (f : Window τ φ → Window τ φ) :
    (b.updateWindow name f).window? name = (b.window? name).map f := by
  unfold Board.updateWindow
  cases hkey : b.windowKeys.get? name with
  | none =>
    rw [window?, hkey]
    rfl
  | some key =>
    rw [window?, window?, hkey]
    exact Dict.get?_modify_self _ key f

theorem WellKept.window?_updateWindow_of_ne (hb : b.WellKept) {name other : String}
    (hne : name ≠ other) (f : Window τ φ → Window τ φ) :
    (b.updateWindow other f).window? name = b.window? name := by
  unfold Board.updateWindow
  cases hother : b.windowKeys.get? other with
  | none => rfl
  | some key =>
    rw [window?, window?]
    cases hname : b.windowKeys.get? name with
    | none => rfl
    | some key' =>
      have hkeys : key' ≠ key := by
        rintro rfl
        exact hne (hb.apart hother hname)
      exact Dict.get?_modify_of_ne hkeys _ f

theorem windowKeys_close_self (name : String) : (b.close name).windowKeys.get? name = none := by
  unfold Board.close
  cases hkey : b.windowKeys.get? name with
  | none => exact hkey
  | some key => exact Dict.get?_erase_self _ name

theorem windowKeys_close_of_ne {name other : String} (hne : name ≠ other) :
    (b.close other).windowKeys.get? name = b.windowKeys.get? name := by
  unfold Board.close
  cases b.windowKeys.get? other with
  | none => rfl
  | some key => exact Dict.get?_erase_of_ne hne _

theorem windowKeys_of_close {name other : String} {key : Nat}
    (h : (b.close other).windowKeys.get? name = some key) : b.windowKeys.get? name = some key := by
  revert h
  unfold Board.close
  cases b.windowKeys.get? other with
  | none => exact fun h => h
  | some closed => exact fun h => (Dict.get?_erase_eq_some.1 h).2

theorem lastKey_close (name : String) :
    (b.close name).listeners.lastKey = b.listeners.lastKey := by
  unfold Board.close
  cases b.windowKeys.get? name <;> rfl

theorem WellKept.close (hb : b.WellKept) (name : String) : (b.close name).WellKept := by
  unfold Board.close
  cases hkey : b.windowKeys.get? name with
  | none => exact hb
  | some key =>
    exact {
      ascending := hb.ascending.remove key
      registered := fun h => by
        obtain ⟨hne, hw⟩ := Dict.get?_erase_eq_some.1 h
        exact Listeners.mem_remove.2 ⟨hb.registered hw, hne⟩
      watching := fun h =>
        ⟨(hb.watching h).1, fun hmem => (hb.watching h).2 (Listeners.mem_remove.1 hmem).1⟩
      named := fun h => hb.named (Dict.get?_erase_eq_some.1 h).2
      apart := fun h h' =>
        hb.apart (Dict.get?_erase_eq_some.1 h).2 (Dict.get?_erase_eq_some.1 h').2 }

theorem window?_close_self (name : String) : (b.close name).window? name = none := by
  rw [window?, windowKeys_close_self]
  rfl

/-- closing a window leaves what is open under every other key -/
theorem windows_close {name : String} {key : Nat} (h : b.windowKeys.get? name ≠ some key) :
    (b.close name).windows.get? key = b.windows.get? key := by
  unfold Board.close
  cases hname : b.windowKeys.get? name with
  | none => rfl
  | some closed =>
    refine Dict.get?_erase_of_ne ?_ _
    rintro rfl
    exact h hname

theorem WellKept.window?_close_of_ne (hb : b.WellKept) {name other : String} (hne : name ≠ other) :
    (b.close other).window? name = b.window? name := by
  rw [window?, window?, windowKeys_close_of_ne hne]
  cases hname : b.windowKeys.get? name with
  | none => rfl
  | some key => exact windows_close fun hother => hne (hb.apart hother hname)

/-- a new window before it has its name -/
def enter (b : Board τ φ) (query : Query τ φ) : Board τ φ :=
  { b with
    listeners := (b.listeners.add .window).2
    windows := b.windows.insert (b.listeners.lastKey + 1) (.ofQuery query) }

theorem WellKept.enter (hb : b.WellKept) (query : Query τ φ) : (b.enter query).WellKept where
  ascending := hb.ascending.add _
  registered h := by
    rw [Board.enter, Listeners.mem_add]
    rcases Dict.get?_insert_eq_some.1 h with ⟨rfl, -⟩ | ⟨-, h⟩
    · exact .inr rfl
    · exact .inl (hb.registered h)
  watching h := by
    obtain ⟨hle, hnot⟩ := hb.watching h
    refine ⟨Nat.le_succ_of_le hle, fun hmem => ?_⟩
    rcases Listeners.mem_add.1 hmem with hmem | hmem
    · exact hnot hmem
    · have hkey := congrArg Prod.fst hmem
      omega
  named h := Nat.le_succ_of_le (hb.named h)
  apart := hb.apart

def entitle (b : Board τ φ) (name : String) (key : Nat) : Board τ φ :=
  { b with windowKeys := b.windowKeys.insert name key }

theorem openWindow_eq (name : String) (query : Query τ φ) : b.openWindow name query =
    ((b.enter query).close name).entitle name (b.listeners.lastKey + 1) := rfl

theorem WellKept.entitle (hb : b.WellKept) (name : String) {key : Nat}
    (hle : key ≤ b.listeners.lastKey) (hnew : ∀ other, b.windowKeys.get? other ≠ some key) :
    (b.entitle name key).WellKept where
  ascending := hb.ascending
  registered := hb.registered
  watching := hb.watching
  named h := by
    rcases Dict.get?_insert_eq_some.1 h with ⟨-, rfl⟩ | ⟨-, h⟩
    · exact hle
    · exact hb.named h
  apart h h' := by
    rcases Dict.get?_insert_eq_some.1 h with ⟨rfl, rfl⟩ | ⟨-, hold⟩
    · rcases Dict.get?_insert_eq_some.1 h' with ⟨rfl, -⟩ | ⟨-, hold'⟩
      · rfl
      · exact absurd hold' (hnew _)
    · rcases Dict.get?_insert_eq_some.1 h' with ⟨rfl, rfl⟩ | ⟨-, hold'⟩
      · exact absurd hold (hnew _)
      · exact hb.apart hold hold'

/-- the next key stands for no window yet -/
theorem WellKept.windowKeys_ne (hb : b.WellKept) (name : String) :
    b.windowKeys.get? name ≠ some (b.listeners.lastKey + 1) :=
  fun h => Nat.not_succ_le_self _ (hb.named h)

theorem WellKept.openWindow (hb : b.WellKept) (name : String) (query : Query τ φ) :
    (b.openWindow name query).WellKept := by
  rw [openWindow_eq]
  refine ((hb.enter query).close name).entitle name ?_ fun other h => ?_
  · rw [lastKey_close]
    exact Nat.le_refl _
  · exact hb.windowKeys_ne other (windowKeys_of_close (b := b.enter query) h)

theorem WellKept.window?_openWindow_self (hb : b.WellKept) (name : String) (query : Query τ φ) :
    (b.openWindow name query).window? name = some (.ofQuery query) := by
  refine window?_eq_some.2 ⟨b.listeners.lastKey + 1, Dict.get?_insert_self _ _ _, ?_⟩
  exact (windows_close (b := b.enter query) (hb.windowKeys_ne name)).trans
    (Dict.get?_insert_self _ _ _)

theorem WellKept.window?_openWindow_of_ne (hb : b.WellKept) {name other : String}
    (hne : name ≠ other) (query : Query τ φ) :
    (b.openWindow other query).window? name = b.window? name := by
  have hclose := (hb.enter query).window?_close_of_ne hne
  have hname : (b.openWindow other query).window? name =
      ((b.enter query).close other).window? name := by
    rw [openWindow_eq, window?, Board.entitle, Dict.get?_insert_of_ne hne, window?]
  rw [hname, hclose, window?, window?]
  show (b.windowKeys.get? name).bind (b.enter query).windows.get? = _
  cases hkey : b.windowKeys.get? name with
  | none => rfl
  | some key =>
    refine Dict.get?_insert_of_ne ?_ _ _
    rintro rfl
    exact hb.windowKeys_ne name hkey

/-! ## Changes -/

variable {same : τ → τ → Bool} {change : DataChange τ}

def note (b : Board τ φ) (w : Watcher) (change : DataChange τ) : Board τ φ :=
  { b with told := b.told ++ [(w.name, change)] }

theorem notify_watcher (key : Nat) (w : Watcher) : b.notify same change (key, .watcher w) =
    (w.removes.map (b.note w change).unwatch).getD (b.note w change) := rfl

theorem WellKept.notify (hb : b.WellKept) (e : Nat × Subscriber) :
    (b.notify same change e).WellKept := by
  obtain ⟨key, _ | w⟩ := e
  · exact hb.modifyWindow key _
  · have hnoted : (b.note w change).WellKept :=
      ⟨hb.ascending, hb.registered, hb.watching, hb.named, hb.apart⟩
    rw [notify_watcher]
    cases w.removes with
    | none => exact hnoted
    | some name => exact hnoted.unwatch name

theorem WellKept.fire (hb : b.WellKept) : (b.fire same change).WellKept := by
  have htell (es : List (Nat × Subscriber)) : (es.foldl (Board.notify same change) b).WellKept := by
    induction es generalizing b with
    | nil => exact hb
    | cons e es ih => exact ih (hb.notify e)
  exact htell b.listeners.entries

/-- a watcher that is told touches no window -/
theorem windows_notify_watcher (key : Nat) (w : Watcher) :
    (b.notify same change (key, .watcher w)).windows = b.windows ∧
      (b.notify same change (key, .watcher w)).windowKeys = b.windowKeys := by
  rw [notify_watcher]
  cases w.removes with
  | none => exact ⟨rfl, rfl⟩
  | some name => exact windows_unwatch (b := b.note w change) name

theorem windowKeys_tell (es : List (Nat × Subscriber)) :
    (es.foldl (notify same change) b).windowKeys = b.windowKeys := by
  induction es generalizing b with
  | nil => rfl
  | cons e es ih =>
    rw [List.foldl_cons, ih]
    obtain ⟨key, _ | w⟩ := e
    · rfl
    · exact (windows_notify_watcher key w).2

theorem windows_notify_of_ne {key : Nat} {e : Nat × Subscriber} (h : e ≠ (key, .window)) :
    (b.notify same change e).windows.get? key = b.windows.get? key := by
  obtain ⟨key', _ | w⟩ := e
  · refine Dict.get?_modify_of_ne ?_ _ _
    rintro rfl
    exact h rfl
  · rw [(windows_notify_watcher key' w).1]

theorem windows_tell_of_notMem {key : Nat} {es : List (Nat × Subscriber)}
    (h : (key, .window) ∉ es) :
    (es.foldl (notify same change) b).windows.get? key = b.windows.get? key := by
  induction es generalizing b with
  | nil => rfl
  | cons e es ih =>
    obtain ⟨hne, hrest⟩ := List.ne_and_not_mem_of_not_mem_cons h
    rw [List.foldl_cons, ih hrest, windows_notify_of_ne hne.symm]

theorem windows_tell_of_mem {key : Nat} {es : List (Nat × Subscriber)} (hnodup : es.Nodup)
    (h : (key, .window) ∈ es) : (es.foldl (notify same change) b).windows.get? key =
      (b.windows.get? key).map (Window.observe same change) := by
  induction es generalizing b with
  | nil => cases h
  | cons e es ih =>
    obtain ⟨hnot, hnodup⟩ := List.nodup_cons.1 hnodup
    rw [List.foldl_cons]
    rcases List.mem_cons.1 h with rfl | hmem
    · rw [windows_tell_of_notMem hnot]
      exact Dict.get?_modify_self _ key _
    · rw [ih hnodup hmem, windows_notify_of_ne]
      rintro rfl
      exact hnot hmem

/-- every open window is told of a change, once -/
theorem WellKept.window?_fire (hb : b.WellKept) (name : String) :
    (b.fire same change).window? name = (b.window? name).map (Window.observe same change) := by
  have hnodup : b.listeners.entries.Nodup := hb.ascending.ordered.imp fun {e f} hlt => by
    rintro rfl
    exact Nat.lt_irrefl _ hlt
  have hkeys : (b.fire same change).windowKeys = b.windowKeys := windowKeys_tell b.listeners.entries
  rw [window?, window?, hkeys]
  cases b.windowKeys.get? name with
  | none => rfl
  | some key =>
    show (b.fire same change).windows.get? key = (b.windows.get? key).map _
    by_cases hmem : (key, Subscriber.window) ∈ b.listeners.entries
    · exact windows_tell_of_mem hnodup hmem
    · -- no window is open under a key without a registration
      have hnone : b.windows.get? key = none := by
        refine Option.eq_none_iff_forall_ne_some.2 fun w hw => ?_
        exact hmem (hb.registered hw)
      rw [hnone]
      exact (windows_tell_of_notMem hmem).trans hnone

end Board

end UiSync
