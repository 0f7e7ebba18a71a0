import UiSync.Proofs.Demo.Form
import UiSync.Proofs.Sync.Lossless

/-!
# Sums of the calculator

The calculator of a form holds two terms that its handler sets, and its hook adds them up.
`Summing` says that a session has certain terms, and that the sum is that of the terms unless the
calculator is dirty.  Setters leave it dirty (`Summing.deliver`), nothing else does, and a response
runs its hook once if it is dirty (`Summing.respond`).
-/

namespace UiSync.Demo

open Json
open Cascade (runsOf)

/-! ## Invocations -/

structure SumCall where
  component : ComponentId
  method : String
  args : List Value

namespace SumCall

def numbered (q : SumCall) (n : SequenceNumber) : Invocation :=
  ⟨q.component, Interface.sum, q.method, q.args, n⟩

/-- the first argument, if it is a signed word -/
def operand? (q : SumCall) : Option Int :=
  match q.args with
  | .integer n :: _ => if n.val < 0x8000000000000000 then some n.val else none
  | _ => none

/-- the argument of a call of a method of the calculator -/
def argument? (method : String) (q : SumCall) : Option Int :=
  if q.component = Place.calculator ∧ q.method = method then q.operand? else none

def isSetter (q : SumCall) : Bool :=
  (q.argument? "setTerm1").isSome || (q.argument? "setTerm2").isSome

end SumCall

/-- the argument of the last call of a method, `x` if there was none -/
def latest (method : String) (x : Int) (calls : List SumCall) : Int :=
  (calls.filterMap (SumCall.argument? method)).getLast?.getD x

theorem latest_append (method : String) (x : Int) (calls later : List SumCall) :
    latest method x (calls ++ later) = latest method (latest method x calls) later := by
  unfold latest
  rw [List.filterMap_append, List.getLast?_append]
  cases (later.filterMap (SumCall.argument? method)).getLast? with
  | none => rfl
  | some y => rfl

theorem latest_cons (method : String) (x : Int) (q : SumCall) (calls : List SumCall) :
    latest method x (q :: calls) = latest method ((q.argument? method).getD x) calls := by
  rw [← List.singleton_append, latest_append]
  congr 1
  unfold latest
  rw [List.filterMap_cons]
  cases q.argument? method with
  | none => rfl
  | some y => rfl

/-! ## Signed words -/

def Signed (x : Int) : Prop := -0x8000000000000000 ≤ x ∧ x < 0x8000000000000000

theorem Signed.sharp {x : Int} (h : Signed x) : (Value.ofInt x).Sharp := by
  obtain ⟨hlow, hhigh⟩ := h
  exact Value.sharp_ofInt hlow (by omega)

theorem Signed.wrapSigned {x : Int} (h : Signed x) : wrapSigned x = x := by
  obtain ⟨hlow, hhigh⟩ := h
  exact Int.bmod_eq_of_le (by omega) (by omega)

theorem signedField_eq {b : FieldBag} {name : String} {x : Int}
    (hb : b.get? name = some (.ofInt x)) (h : Signed x) : signedField b name = x := by
  obtain ⟨hlow, hhigh⟩ := h
  have hvalue : Value.ofInt x = .integer ⟨x, hlow, by omega⟩ := by
    rw [Value.ofInt, Integer.ofInt?, dif_pos ⟨hlow, by omega⟩]
    rfl
  rw [signedField, hb, hvalue]
  show (if x < 0x8000000000000000 then some x else none).getD 0 = x
  rw [if_pos hhigh]
  rfl

/-! ## The handler -/

namespace SumCall

variable {q : SumCall} {n : SequenceNumber}

theorem signed_operand {x : Int} (h : q.operand? = some x) : Signed x := by
  unfold operand? at h
  split at h
  · next m rest _ =>
    split at h
    · next hhigh =>
      obtain rfl := Option.some.inj h
      exact ⟨m.lower, hhigh⟩
    · cases h
  · cases h

theorem signed_argument {method : String} {x : Int} (h : q.argument? method = some x) :
    Signed x := by
  unfold argument? at h
  split at h
  · exact signed_operand h
  · cases h

/-- the handler takes for its argument what is one -/
theorem arg_eq (q : SumCall) (n : SequenceNumber) :
    (∃ x, q.operand? = some x ∧ (q.numbered n).arg (View.int 64 "i64") 0 = .ok x) ∨
      q.operand? = none ∧ ∃ e, (q.numbered n).arg (View.int 64 "i64") 0 = .error e := by
  cases harg : (q.numbered n).arg (View.int 64 "i64") 0 with
  | ok x =>
    obtain ⟨v, rest, hargs, hv⟩ := arg_eq_ok harg
    obtain ⟨m, rfl, rfl, -, hhigh⟩ := intBetween_eq_ok.1 hv
    refine .inl ⟨m.val, ?_, rfl⟩
    change q.args = _ at hargs
    rw [operand?, hargs]
    refine if_pos ?_
    rw [Nat.one_shiftLeft] at hhigh
    omega
  | error e =>
    refine .inr ⟨?_, e, rfl⟩
    unfold operand?
    split
    · next m rest hargs =>
      refine if_neg fun hhigh => ?_
      have hv : View.int 64 "i64" (.integer m) = .ok m.val := by
        refine intBetween_eq_ok.2 ⟨m, rfl, rfl, ?_, ?_⟩
        · rw [Nat.one_shiftLeft]
          exact m.lower
        · rw [Nat.one_shiftLeft]
          omega
      have hargs' : (q.numbered n).args = .integer m :: rest := hargs
      simp [Invocation.arg, hargs', hv] at harg
    · rfl

end SumCall

def setting (c : Part) (term : String) (x : Int) : PartReaction :=
  { idle c.model with edits := [.set term (.ofInt x)], marks := [Place.calculator] }

/-- what the calculator makes of a call: it sets one of its terms, or refuses -/
inductive Answered (q : SumCall) (c : Part) : PartReaction × Except InvocationError Unit → Prop
  | first (x : Int) : q.argument? "setTerm1" = some x → q.argument? "setTerm2" = none →
      Answered q c (setting c "term1" x, .ok ())
  | second (y : Int) : q.argument? "setTerm1" = none → q.argument? "setTerm2" = some y →
      Answered q c (setting c "term2" y, .ok ())
  | refused (e : InvocationError) : q.argument? "setTerm1" = none →
      q.argument? "setTerm2" = none → Answered q c (refuse c e)

theorem answered_handle {c : Part} {runs : Nat} (hc : c.model = .calculator runs) {q : SumCall}
    (hid : q.component = Place.calculator) (n : SequenceNumber) :
    Answered q c (handle .calculator c (q.numbered n)) := by
  have hhandle : handle .calculator c (q.numbered n) = handleCalculator c (q.numbered n) := by
    simp only [handle, hc]
  have hmethod : (q.numbered n).method = q.method := rfl
  have hself : (q.numbered n).component = Place.calculator := hid
  have hother : ∀ method, q.method ≠ method → q.argument? method = none :=
    fun method hne => if_neg fun h => hne h.2
  have hsame : ∀ method, q.method = method → q.argument? method = q.operand? :=
    fun method he => if_pos ⟨hid, he⟩
  rw [hhandle, handleCalculator, hmethod, hself]
  by_cases h₁ : q.method = "setTerm1"
  · have h₂ : q.argument? "setTerm2" = none := hother _ (by rw [h₁]; decide)
    rw [h₁]
    rcases q.arg_eq n with ⟨x, hx, harg⟩ | ⟨hx, e, harg⟩
    · simp only [termOf?, harg]
      exact .first x ((hsame _ h₁).trans hx) h₂
    · simp only [termOf?, harg]
      exact .refused e ((hsame _ h₁).trans hx) h₂
  · have h₁' : q.argument? "setTerm1" = none := hother _ h₁
    by_cases h₂ : q.method = "setTerm2"
    · rw [h₂]
      rcases q.arg_eq n with ⟨y, hy, harg⟩ | ⟨hy, e, harg⟩
      · simp only [termOf?, harg]
        exact .second y h₁' ((hsame _ h₂).trans hy)
      · simp only [termOf?, harg]
        exact .refused e h₁' ((hsame _ h₂).trans hy)
    · have hnone : termOf? q.method = none := by
        unfold termOf?
        split
        · next h => exact absurd h h₁
        · next h => exact absurd h h₂
        · rfl
      simp only [hnone]
      exact .refused _ h₁' (hother _ h₂)

/-! ## The calculator -/

/-- a calculator with these terms whose hook ran so often -/
structure Holds (x y : Int) (runs : Nat) (c : Part) : Prop where
  model : c.model = .calculator runs
  term1 : c.fields.get? "term1" = some (.ofInt x)
  term2 : c.fields.get? "term2" = some (.ofInt y)
  others : ∀ name, name ≠ "term1" → name ≠ "term2" → name ≠ "sum" → c.fields.get? name = none

namespace Holds

variable {x y : Int} {runs : Nat} {c : Part}

theorem congr (h : Holds x y runs c) {d : Part} (hm : d.model = c.model)
    (hf : d.fields.fields = c.fields.fields) : Holds x y runs d := by
  have hget : ∀ name, d.fields.get? name = c.fields.get? name := by
    intro name
    rw [FieldBag.get?, hf, FieldBag.get?]
  exact ⟨hm.trans h.model, (hget _).trans h.term1, (hget _).trans h.term2,
    fun name h₁ h₂ h₃ => (hget name).trans (h.others name h₁ h₂ h₃)⟩

theorem first (h : Holds x y runs c) (x' : Int) :
    Holds x' y runs ((setting c "term1" x').apply c) where
  model := h.model
  term1 := FieldBag.get?_set_self ..
  term2 := (FieldBag.get?_set_of_ne (by decide) ..).trans h.term2
  others name h₁ h₂ h₃ := (FieldBag.get?_set_of_ne h₁ ..).trans (h.others name h₁ h₂ h₃)

theorem second (h : Holds x y runs c) (y' : Int) :
    Holds x y' runs ((setting c "term2" y').apply c) where
  model := h.model
  term1 := (FieldBag.get?_set_of_ne (by decide) ..).trans h.term1
  term2 := FieldBag.get?_set_self ..
  others name h₁ h₂ h₃ := (FieldBag.get?_set_of_ne h₂ ..).trans (h.others name h₁ h₂ h₃)

/-- the hook adds the terms up -/
theorem hook (h : Holds x y runs c) (hx : Signed x) (hy : Signed y) (rows : List Row)
    (id : ComponentId) (initial : Bool) :
    Holds x y (runs + 1) ((Demo.hook rows id c initial).apply c) ∧
      ((Demo.hook rows id c initial).apply c).fields.get? "sum" =
        some (.ofInt (wrapSigned (x + y))) := by
  have hreaction : Demo.hook rows id c initial =
      { idle (.calculator (runs + 1)) with
        edits := [.set "sum" (.ofInt (wrapSigned (x + y)))] } := by
    simp only [Demo.hook, h.model, signedField_eq h.term1 hx, signedField_eq h.term2 hy]
  rw [hreaction]
  exact ⟨⟨rfl, (FieldBag.get?_set_of_ne (by decide) ..).trans h.term1,
    (FieldBag.get?_set_of_ne (by decide) ..).trans h.term2,
    fun name h₁ h₂ h₃ => (FieldBag.get?_set_of_ne h₃ ..).trans (h.others name h₁ h₂ h₃)⟩,
    FieldBag.get?_set_self ..⟩

end Holds

/-- a form whose calculator has these terms, and their sum unless it is dirty -/
structure Summing (s : PartSession) (x y : Int) (runs : Nat) : Prop where
  formed : Formed s
  signed : Signed x ∧ Signed y
  holds : ∃ c, s.tree.get? Place.calculator = some c ∧ Holds x y runs c ∧
    (s.isDirty Place.calculator = false →
      c.fields.get? "sum" = some (.ofInt (wrapSigned (x + y))))

namespace Summing

variable {rows : List Row} {s s' : PartSession} {x y : Int} {runs : Nat} {q : SumCall}
  {n : SequenceNumber}

theorem start (config : Config) : Summing (formSession config) 0 0 0 := by
  have hget : (formSession config).tree.get? Place.calculator = some Part.calculator := by cbv
  have hdirty : (formSession config).isDirty Place.calculator = true := by cbv
  refine ⟨.start config, ⟨⟨by decide, by decide⟩, by decide, by decide⟩, _, hget, ?_, ?_⟩
  · refine ⟨rfl, rfl, rfl, fun name h₁ h₂ h₃ => ?_⟩
    show (((FieldBag.empty.set "term1" _).set "term2" _).set "sum" _).get? name = none
    rw [FieldBag.get?_set_of_ne h₃, FieldBag.get?_set_of_ne h₂, FieldBag.get?_set_of_ne h₁]
    rfl
  · intro hclean
    rw [hdirty] at hclean
    cases hclean

/-! ### Setters -/

/-- what calls, after which the number `n` is due, leave behind -/
structure After (s s' : PartSession) (n : SequenceNumber) (calls : List SumCall) : Prop where
  edited : Tree.Edited s.tree s'.tree
  expects : s'.guard.Expects n
  dirty : s'.isDirty Place.calculator = (s.isDirty Place.calculator || calls.any SumCall.isSetter)
  config : s'.config = s.config

/-- a call that is no setter moves the guard and nothing else -/
theorem passes (h : Summing s x y runs) (n : SequenceNumber) (hq : q.isSetter = false) :
    After s { s with guard := s.guard.record n } n.next [q] ∧
      Summing { s with guard := s.guard.record n } x y runs := by
  refine ⟨⟨.refl _, s.guard.expects_record n, ?_, rfl⟩, ?_⟩
  · show s.isDirty Place.calculator = _
    rw [List.any_cons, hq, List.any_nil, Bool.or_false, Bool.or_false]
  · exact ⟨h.formed.congr rfl rfl fun id hid => hid, h.signed, h.holds⟩

/-- a setter has marked the calculator -/
theorem sets (h : Summing s x y runs) {c : Part} {r : PartReaction} {x' y' : Int}
    (hc : s.tree.get? (q.numbered n).component = some c)
    (hid : q.component = Place.calculator) (hq : q.isSetter = true)
    (hr : s.Reacted (q.numbered n) c r s') (hmark : r.marks = [Place.calculator])
    (hholds : Holds x' y' runs (r.apply c)) (hsigned : Signed x' ∧ Signed y') :
    After s s' n.next [q] ∧ Summing s' x' y' runs := by
  have hself : (q.numbered n).component = Place.calculator := hid
  have hmem : (q.numbered n).component ∈ r.marks := by
    rw [hmark, hself]
    exact List.mem_singleton_self _
  have hdirty : s'.isDirty Place.calculator = true := by
    rw [← hself]
    exact (hr.marks _).2 (.inl ⟨hmem, Tree.contains_iff_get?.2 ⟨_, hc⟩⟩)
  have hformed := h.formed.reacted hr hc (.inr hmem) (plain_of_calculator hholds.model)
  have hown := hr.own
  rw [hself] at hown
  refine ⟨⟨hr.edited hc, ?_, ?_, hr.settings.1⟩, hformed, hsigned, _, hown, hholds,
    fun hclean => ?_⟩
  · rw [hr.guard]
    exact s.guard.expects_record n
  · rw [hdirty, List.any_cons, hq, Bool.true_or, Bool.or_true]
  · rw [hdirty] at hclean
    cases hclean

/-- no other component has the interface of the calculator -/
theorem deliver_elsewhere (h : Summing s x y runs) (hg : s.guard.Expects n) (rows : List Row)
    (hid : q.component ≠ Place.calculator) :
    s.deliver (behaviour rows) (q.numbered n) =
      ({ s with guard := s.guard.record n },
        .error (.unknownTarget q.component Interface.sum)) := by
  have hnobody : s.registry.handler? q.component Interface.sum = none := by
    cases hh : s.registry.handler? q.component Interface.sum with
    | none => rfl
    | some handler => exact absurd ((h.formed.handlers _ _ _).1 hh).of_sum hid
  have hpass : s.guard.check (q.numbered n).sequence = .ok () := hg.check
  have hnone : { s with guard := s.guard.record n }.handlerFor? (q.numbered n) = none := by
    show (if s.tree.contains q.component then s.registry.handler? q.component Interface.sum
      else none) = none
    rw [hnobody, ite_self]
  have hdeliver := Session.deliver_passed (b := behaviour rows) hpass
  exact hdeliver.trans (Session.dispatch_of_handlerFor_none hnone)

/-- one call, of which the guard has the number that it expects -/
theorem deliver (h : Summing s x y runs) (hg : s.guard.Expects n) (rows : List Row) (q : SumCall) :
    ∃ s' answer, s.deliver (behaviour rows) (q.numbered n) = (s', answer) ∧
      answer.isOk = q.isSetter ∧ After s s' n.next [q] ∧
        Summing s' ((q.argument? "setTerm1").getD x) ((q.argument? "setTerm2").getD y) runs := by
  by_cases hid : q.component = Place.calculator
  · obtain ⟨c, hc, hholds, -⟩ := h.holds
    have hself : (q.numbered n).component = Place.calculator := hid
    rw [← hself] at hc
    have hacc : s.Accepts (q.numbered n) .calculator c := by
      refine ⟨hg.check, ?_, hc⟩
      rw [hself]
      exact (h.formed.handlers _ _ _).2 .calculator
    have hreacted (r : PartReaction) := Session.reacted_absorb hc r
    generalize hout : handle .calculator c (q.numbered n) = out
    have hanswered := answered_handle hholds.model hid n
    rw [hout] at hanswered
    have hdeliver := fun r answer (hr : handle .calculator c (q.numbered n) = (r, answer)) =>
      Session.deliver_accepted (b := behaviour rows) hacc hr
    cases hanswered with
    | first x' h₁ h₂ =>
      have hq : q.isSetter = true := by rw [SumCall.isSetter, h₁]; rfl
      have hsigned := SumCall.signed_argument h₁
      rw [h₁, h₂]
      exact ⟨_, .ok (), hdeliver _ _ hout, hq.symm,
        h.sets hc hid hq (hreacted _) rfl (hholds.first x') ⟨hsigned, h.signed.2⟩⟩
    | second y' h₁ h₂ =>
      have hq : q.isSetter = true := by rw [SumCall.isSetter, h₁, h₂]; rfl
      have hsigned := SumCall.signed_argument h₂
      rw [h₁, h₂]
      exact ⟨_, .ok (), hdeliver _ _ hout, hq.symm,
        h.sets hc hid hq (hreacted _) rfl (hholds.second y') ⟨h.signed.1, hsigned⟩⟩
    | refused e h₁ h₂ =>
      have hq : q.isSetter = false := by rw [SumCall.isSetter, h₁, h₂]; rfl
      rw [h₁, h₂]
      refine ⟨_, .error e, (hdeliver _ _ hout).trans ?_, hq.symm, h.passes n hq⟩
      have hsame : { s with guard := s.guard.record n }.absorb (q.numbered n).component
          (.idle c.model : PartReaction) = { s with guard := s.guard.record n } :=
        Session.absorb_idle hc
      exact Prod.ext hsame rfl
  · have hother : ∀ method, q.argument? method = none := fun method => if_neg fun h => hid h.1
    have hq : q.isSetter = false := by rw [SumCall.isSetter, hother, hother]; rfl
    rw [hother, hother]
    exact ⟨_, _, h.deliver_elsewhere hg rows hid, hq.symm, h.passes n hq⟩

end Summing

/-! ## Messages -/

def numberedFrom (n : SequenceNumber) : List SumCall → List Invocation
  | [] => []
  | q :: calls => q.numbered n :: numberedFrom n.next calls

def numberAfter (n : SequenceNumber) : List SumCall → SequenceNumber
  | [] => n
  | _ :: calls => numberAfter n.next calls

namespace Summing

variable {s s' s'' : PartSession} {x y : Int} {runs : Nat} {n n' : SequenceNumber}
  {calls later : List SumCall}

theorem After.trans (h : After s s' n calls) (h' : After s' s'' n' later) :
    After s s'' n' (calls ++ later) := by
  refine ⟨h.edited.trans h'.edited, h'.expects, ?_, h'.config.trans h.config⟩
  rw [h'.dirty, h.dirty, List.any_append, Bool.or_assoc]

/-- calls in turn: the setters succeed, and no others -/
theorem deliverAll (h : Summing s x y runs) (hg : s.guard.Expects n) (rows : List Row)
    (calls : List SumCall) :
    (s.outcomes (behaviour rows) (numberedFrom n calls)).map (fun o => o.answer.isOk) =
        calls.map SumCall.isSetter ∧
      After s (s.deliverAll (behaviour rows) (numberedFrom n calls)) (numberAfter n calls) calls ∧
      Summing (s.deliverAll (behaviour rows) (numberedFrom n calls))
        (latest "setTerm1" x calls) (latest "setTerm2" y calls) runs := by
  induction calls generalizing s x y n with
  | nil =>
    refine ⟨rfl, ⟨.refl _, hg, ?_, rfl⟩, h⟩
    rw [List.any_nil, Bool.or_false]
    rfl
  | cons q calls ih =>
    obtain ⟨s', answer, hdeliver, hanswer, hafter, h'⟩ := h.deliver hg rows q
    obtain ⟨hanswers, hrest, h''⟩ := ih h' hafter.expects
    show (Outcome.mk _ (s.deliver (behaviour rows) (q.numbered n)).2 ::
        (s.deliver (behaviour rows) (q.numbered n)).1.outcomes (behaviour rows)
          (numberedFrom n.next calls)).map (fun o => o.answer.isOk) = _ ∧
      After s ((s.deliver (behaviour rows) (q.numbered n)).1.deliverAll (behaviour rows)
        (numberedFrom n.next calls)) (numberAfter n.next calls) (q :: calls) ∧
      Summing ((s.deliver (behaviour rows) (q.numbered n)).1.deliverAll (behaviour rows)
        (numberedFrom n.next calls)) _ _ runs
    rw [hdeliver, latest_cons, latest_cons, List.map_cons, List.map_cons, hanswers]
    exact ⟨congrArg (· :: _) hanswer, hafter.trans hrest, h''⟩

/-! ## Responses -/

/-- how often the hook of the calculator runs for a response -/
def due (s : PartSession) : Nat := if s.isDirty Place.calculator then 1 else 0

/-- the hook runs once if the calculator is dirty, and not at all if it is not -/
theorem finalize (h : Summing s x y runs) {rows : List Row} {k : Cascade Model}
    (hk : s.finalize (behaviour rows) = .ok k) :
    (runsOf Place.calculator (s.hookRuns (behaviour rows))).length = due s ∧
      ∃ c, k.tree.get? Place.calculator = some c ∧ Holds x y (runs + due s) c ∧
        c.fields.get? "sum" = some (.ofInt (wrapSigned (x + y))) := by
  obtain ⟨c, hc, hholds, hsum⟩ := h.holds
  have hcourse := Session.course_of_finalize hk
  have hunmarked : ∀ run ∈ s.hookRuns (behaviour rows), ¬ run.Marks Place.calculator :=
    fun run hr => h.formed.not_marks_calculator hr
  have hget : k.tree.get? Place.calculator =
      some (Cascade.revised Place.calculator (s.hookRuns (behaviour rows)) c) := by
    rw [hcourse.explained.components]
    show (s.tree.get? Place.calculator).map _ = _
    rw [hc]
    rfl
  rw [Cascade.revised_runsOf] at hget
  cases hd : s.isDirty Place.calculator with
  | true =>
    have hclean := Session.clean_of_finalize h.formed.current.wellFormed hk
      (Tree.contains_iff_get?.2 ⟨_, hc⟩)
    obtain ⟨run, hruns, hreaction⟩ := hcourse.alone hunmarked hc hd hclean
    rw [hruns] at hget ⊢
    have hdue : due s = 1 := by rw [due, hd]; rfl
    rw [hdue]
    refine ⟨rfl, _, hget, ?_⟩
    show Holds x y (runs + 1) (run.reaction.apply c) ∧ (run.reaction.apply c).fields.get? _ = _
    rw [hreaction]
    exact hholds.hook h.signed.1 h.signed.2 rows _ _
  | false =>
    rw [hcourse.runsOf_of_clean hunmarked hd] at hget ⊢
    have hdue : due s = 0 := by rw [due, hd]; rfl
    rw [hdue]
    exact ⟨rfl, c, hget, hholds, hsum hd⟩

theorem respond (h : Summing s x y runs) {rows : List Row} {response : Response}
    (hr : s.respond (behaviour rows) = (s', .ok response)) :
    (runsOf Place.calculator (s.hookRuns (behaviour rows))).length = due s ∧
      Summing s' x y (runs + due s) ∧ s'.isDirty Place.calculator = false := by
  have hformed : Formed (s.respond (behaviour rows)).1 := h.formed.respond
  rw [hr] at hformed
  obtain ⟨k, hk, rfl, -⟩ := Session.respond_ok hr
  obtain ⟨hruns, c, hc, hholds, hsum⟩ := h.finalize hk
  have hw := h.formed.current.wellFormed
  have hwk := (Session.edited_of_finalize hk).shape.wellFormed hw
  have hclean : (s.commit k).isDirty Place.calculator = false := by
    obtain ⟨d, hd, -⟩ := h.holds
    exact Session.clean_of_finalize hw hk (Tree.contains_iff_get?.2 ⟨_, hd⟩)
  refine ⟨hruns, ⟨hformed, h.signed, ?_⟩, hclean⟩
  by_cases hmem : Place.calculator ∈ k.finalized
  · have hsent := Session.get?_commitFields_of_mem (Cascade.nodup_finalized hwk) hmem k.tree
    rw [hc] at hsent
    exact ⟨_, hsent, hholds.congr rfl rfl, fun _ => hsum⟩
  · exact ⟨c, (Session.get?_commitFields_of_notMem hmem k.tree).trans hc, hholds, fun _ => hsum⟩

end Summing

end UiSync.Demo
