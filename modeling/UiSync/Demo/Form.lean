import UiSync.Demo.Behaviour

/-!
# The demo interface

A small form: a title, a sum calculator, a text field, a notifier whose hook refreshes a follower,
and a listing of the shared rows. The follower stands before the notifier, so the notifier's marks
reach back.
-/

namespace UiSync.Demo

/-- registers the handlers that go with a kind of component -/
def registerCalculator (s : PartSession) (id : ComponentId) : Except TreeError PartSession :=
  s.register id Interface.sum .calculator

def registerTextField (s : PartSession) (id : ComponentId) : Except TreeError PartSession := do
  (← s.register id Interface.textField .textField).register id Interface.contextHelp .contextHelp

def registerListing (s : PartSession) (id : ComponentId) : Except TreeError PartSession :=
  s.register id Interface.listing .listing

/-- the name field of the form: it has to be filled in -/
def nameField : Part :=
  let c := Part.textField "Name"
  { c with fields := (c.fields.setRequired true).setDescription "Your full name" }

/-- the form under a root that is there -/
def buildForm (s : PartSession) : Except TreeError PartSession := do
  let (_, s) ← s.attach s.root (Part.label "Demo")
  let (sum, s) ← s.attach s.root Part.calculator
  let s ← registerCalculator s sum
  let (name, s) ← s.attach s.root nameField
  let s ← registerTextField s name
  let (follower, s) ← s.attach s.root Part.follower
  let (_, s) ← s.attach s.root (Part.notifier [follower])
  let (listing, s) ← s.attach s.root (Part.listing none 5)
  registerListing s listing

/-- a new session of the form -/
def formSession (config : Config) : PartSession :=
  let s := Session.ofRoot Part.layout config
  (buildForm s).toOption.getD s

/-! ## Changes from outside -/

/-- changes the model of a component where `f` says so; answers whether it did -/
def remodel (s : PartSession) (id : ComponentId) (f : Model → Option Model) :
    PartSession × Bool :=
  match s.tree.get? id with
  | none => (s, false)
  | some c =>
    match f c.model with
    | none => (s, false)
    | some model => (s.update id fun c => { c with model := model }, true)

/-- gives a scripted component another hook -/
def setHook (hook : List HookAction) : Model → Option Model
  | .widget w => some (.widget { w with hook := hook })
  | _ => none

/-- gives a notifier other dependents -/
def setDependents (dependents : List ComponentId) : Model → Option Model
  | .notifier _ => some (.notifier dependents)
  | _ => none

/-- the component of an identity, if it is a text field -/
def textField? (s : PartSession) (id : ComponentId) : Option Part :=
  (s.tree.get? id).filter fun c =>
    match c.model with
    | .textField _ => true
    | _ => false

/-- changes the fields of a component, without a mark -/
def editFields (s : PartSession) (id : ComponentId) (f : FieldBag → FieldBag) : PartSession :=
  s.update id fun c => { c with fields := f c.fields }

/-- tells the shared listing of a session of a change of the rows -/
def observeRows (change : DataChange Row) (s : PartSession) : PartSession :=
  { s with tree := s.tree.updateAll fun c =>
    match c.model with
    | .listing l => { c with model := .listing (l.observe change) }
    | _ => c }

end UiSync.Demo
