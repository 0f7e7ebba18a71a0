import UiSync.Demo.Model
import UiSync.Session.Basic

/-!
# What demo components do

Hooks, handlers and setups of the demo components. A handler belongs to one kind of component and
refuses others. Sums and counters are words of 64 bits and wrap around.
-/

namespace UiSync.Demo

open Json

inductive Handler where
  | calculator
  | textField
  | contextHelp
  | listing
  | script (methods : Methods)

/-- what is done once a component asked for is attached -/
inductive Setup where
  /-- the owner, a listing, notes it as its editor -/
  | noteEditor (owner : ComponentId)
  | script (steps : List SetupStep)

abbrev PartReaction := Reaction Model Setup

/-- nothing is asked for -/
def idle (model : Model) : PartReaction := .idle model

/-! ## Interfaces -/

namespace Interface

def sum : String := "SumRpc"
def textField : String := "TextFieldRpc"
def contextHelp : String := "HasContextHelpServerRpc"
def showHelp : String := "ContextHelpClientRpc"
def listing : String := "ListingRpc"

end Interface

/-- the kind of component a handler belongs to, in reports -/
def Handler.expected : Handler → String
  | calculator => "trellis_test::helpers::components::SumCalculator"
  | textField => "trellis_test::helpers::components::TextField"
  | contextHelp => "trellis_test::helpers::components::TextField"
  | listing => "trellis_test::helpers::components::Listing"
  | script _ => "oracle_driver::widget::Widget"

/-! ## Counting -/

/-- a signed word of 64 bits, wrapping around -/
def wrapSigned (n : Int) : Int := n.bmod 0x10000000000000000

/-- a signed integer field, 0 when it is missing or something else -/
def signedField (b : FieldBag) (name : String) : Int := ((b.get? name).bind Value.int64?).getD 0

/-- a field that counts up from 0, wrapping around as an unsigned word -/
def countUp (b : FieldBag) (name : String) : Edit :=
  .set name (.ofNat ((((b.get? name).bind Value.nat64?).getD 0 + 1) % 0x10000000000000000))

/-! ## Scripts -/

/-- a reaction on its way, next to the fields as they are by then -/
structure Draft where
  fields : FieldBag
  reaction : PartReaction

namespace Draft

def start (c : Part) (model : Model) : Draft := ⟨c.fields, .idle model⟩

def edit (d : Draft) (e : Edit) : Draft :=
  ⟨d.fields.edit e, { d.reaction with edits := d.reaction.edits ++ [e] }⟩

def call (d : Draft) (c : PeerCall) : Draft :=
  { d with reaction := { d.reaction with calls := d.reaction.calls ++ [c] } }

def mark (d : Draft) (id : ComponentId) : Draft :=
  { d with reaction := { d.reaction with marks := d.reaction.marks ++ [id] } }

def request (d : Draft) (r : TreeRequest Model Setup) : Draft :=
  { d with reaction := { d.reaction with requests := d.reaction.requests ++ [r] } }

/-- carries out an action of the component `self`; arguments and failures mean nothing here -/
def act (self : ComponentId) (d : Draft) : Action → Draft
  | .set name value => d.edit (.set name value)
  | .remove name => d.edit (.remove name)
  | .increment name => d.edit (.set name (.ofInt (wrapSigned (signedField d.fields name + 1))))
  | .mark id => d.mark id
  | .markSelf => d.mark self
  | .call interface method args => d.call ⟨interface, method, args⟩
  | .attach parent component setup =>
    d.request (.attach (parent.getD self) (Part.ofBlueprint component) (setup.map .script))
  | .detach id => d.request (.detach (id.getD self))
  | .setArg _ _ _ => d
  | .fail _ => d

/-- carries out an action of a handler; a failure comes with what was done before -/
def handle (call : Invocation) (d : Draft) : Action → Draft × Except InvocationError Unit
  | .setArg name index shape =>
    match call.arg shape.check index with
    | .ok value => (d.edit (.set name value), .ok ())
    | .error e => (d, .error e)
  | .fail message =>
    (d, .error (.failed call.component call.interface call.method message))
  | action => (d.act call.component action, .ok ())

/-- carries out actions of a handler in order, up to the first that fails -/
def handleAll (call : Invocation) (d : Draft) : List Action → Draft × Except InvocationError Unit
  | [] => (d, .ok ())
  | a :: actions =>
    match d.handle call a with
    | (d, .ok ()) => d.handleAll call actions
    | (d, .error e) => (d, .error e)

end Draft

/-- the hook of a scripted component -/
def Widget.hookReaction (w : Widget) (id : ComponentId) (c : Part) (initial : Bool) :
    PartReaction :=
  let w := { w with runs := w.runs + 1, initial := w.initial ++ [initial] }
  let actions := (w.hook.filter (·.applies initial w.runs)).map HookAction.action
  (actions.foldl (Draft.act id) (Draft.start c (.widget w))).reaction

/-! ## Hooks -/

/-- what an input field shows besides its value -/
def fieldEdits (b : FieldBag) : List Edit := [
  .set "requiredIndicator" (.bool b.showsRequiredIndicator),
  match b.visibleError? with
  | some message => .set "visibleError" (.string message)
  | none => .remove "visibleError"]

/-- the hook of a component -/
def hook (shared : List Row) (id : ComponentId) (c : Part) (initial : Bool) : PartReaction :=
  match c.model with
  | .layout => .idle .layout
  | .label => .idle .label
  | .calculator runs =>
    let sum := wrapSigned (signedField c.fields "term1" + signedField c.fields "term2")
    { idle (.calculator (runs + 1)) with edits := [.set "sum" (.ofInt sum)] }
  | .textField clicks =>
    { idle (.textField clicks) with edits := fieldEdits c.fields }
  | .notifier dependents =>
    { idle (.notifier dependents) with
      edits := [countUp c.fields "notified"]
      marks := dependents }
  | .follower flags =>
    { idle (.follower (flags ++ [initial])) with
      edits := [countUp c.fields "refreshes"] }
  | .listing l =>
    let l := l.load shared
    { idle (.listing l) with edits := l.edits }
  | .widget w => w.hookReaction id c initial

/-! ## Handlers -/

/-- a handler that goes wrong before it did anything -/
def refuse (c : Part) (e : InvocationError) : PartReaction × Except InvocationError Unit :=
  (.idle c.model, .error e)

/-- a handler that succeeds -/
def accept (r : PartReaction) : PartReaction × Except InvocationError Unit := (r, .ok ())

/-- the term a method of the calculator sets -/
def termOf? : String → Option String
  | "setTerm1" => some "term1"
  | "setTerm2" => some "term2"
  | _ => none

def handleCalculator (c : Part) (call : Invocation) :
    PartReaction × Except InvocationError Unit :=
  match termOf? call.method with
  | none => refuse c (.unknownMethod Interface.sum call.method)
  | some term =>
    match call.arg (View.int 64 "i64") 0 with
    | .error e => refuse c e
    | .ok n =>
      accept { idle c.model with
        edits := [.set term (.ofInt n)]
        marks := [call.component] }

def handleTextField (c : Part) (call : Invocation) :
    PartReaction × Except InvocationError Unit :=
  if call.method != "setValue" then
    refuse c (.unknownMethod Interface.textField call.method)
  else if !c.fields.isEnabled || c.fields.isReadOnly then
    refuse c (.failed call.component Interface.textField call.method
      "field does not accept input")
  else
    match call.arg View.string 0 with
    | .error e => refuse c e
    | .ok text =>
      accept { idle c.model with
        edits := [.set "value" (.string text), .set FieldName.modified (.bool true)]
        marks := [call.component] }

/-- a click on the help icon of a text field sends its description to the place of the click -/
def handleContextHelp (c : Part) (clicks : List MouseEvent) (call : Invocation) :
    PartReaction × Except InvocationError Unit :=
  if call.method != "iconClick" then
    refuse c (.unknownMethod Interface.contextHelp call.method)
  else
    match call.arg MouseEvent.view 0 with
    | .error e => refuse c e
    | .ok click =>
      let help := c.fields.description?.getD ""
      let args := [.string help, .ofInt click.clientX, .ofInt click.clientY]
      accept { idle (.textField (clicks ++ [click])) with
        calls := [⟨Interface.showHelp, "showHelp", args⟩] }

/-- the request that closes the editor of a listing -/
def closing (l : Listing) : List (TreeRequest Model Setup) :=
  l.editor.toList.map TreeRequest.detach

def handleListing (c : Part) (l : Listing) (call : Invocation) :
    PartReaction × Except InvocationError Unit :=
  let self := call.component
  match call.method with
  | "setRange" =>
    match call.arg (View.nat 64 "usize") 0, call.arg (View.nat 64 "usize") 1 with
    | .error e, _ => refuse c e
    | .ok _, .error e => refuse c e
    | .ok offset, .ok limit =>
      accept { idle (.listing { l with window := l.window.setRange offset limit }) with
        marks := [self] }
  | "openEditor" =>
    match call.arg (View.nat 32 "u32") 0 with
    | .error e => refuse c e
    | .ok row =>
      let editor := Part.label ("Editing row " ++ toString row)
      accept { idle (.listing { l with editor := none }) with
        edits := [.set "editingRow" (.ofNat row)]
        marks := [self]
        requests := closing l ++ [.attach self editor (some (.noteEditor self))] }
  | "closeEditor" =>
    accept { idle (.listing { l with editor := none }) with
      edits := [.remove "editingRow"]
      marks := [self]
      requests := closing l }
  | method => refuse c (.unknownMethod Interface.listing method)

def handleScript (c : Part) (methods : Methods) (call : Invocation) :
    PartReaction × Except InvocationError Unit :=
  match methods.lookup call.method with
  | none => refuse c (.unknownMethod call.interface call.method)
  | some actions =>
    match (Draft.start c c.model).handleAll call actions with
    | (d, result) => (d.reaction, result)

/-- carries out an invocation -/
def handle (h : Handler) (c : Part) (call : Invocation) :
    PartReaction × Except InvocationError Unit :=
  match h, c.model with
  | .calculator, .calculator _ => handleCalculator c call
  | .textField, .textField _ => handleTextField c call
  | .contextHelp, .textField clicks => handleContextHelp c clicks call
  | .listing, .listing l => handleListing c l call
  | .script methods, .widget _ => handleScript c methods call
  | h, _ => refuse c (.wrongComponent call.component h.expected)

/-! ## Setups -/

abbrev PartSession := Session Model Handler

/-- makes a listing note its editor -/
def noteEditor (editor : ComponentId) (c : Part) : Part :=
  match c.model with
  | .listing l => { c with model := .listing { l with editor := some editor } }
  | _ => c

/-- carries out one step for the component `self` -/
def runStep (s : PartSession) (self : ComponentId) : SetupStep → Except TreeError PartSession
  | .register id interface methods => s.register (id.getD self) interface (.script methods)
  | .call id interface method args => s.call (id.getD self) interface method args
  | .attach id component => (s.attach (id.getD self) (Part.ofBlueprint component)).map Prod.snd
  | .detach id => s.detach (id.getD self)
  | .mark id => .ok (s.mark (id.getD self))
  | .clear id => .ok (s.clear (id.getD self))

/-- carries out steps in order, up to the first that fails -/
def runSteps (s : PartSession) (self : ComponentId) :
    List SetupStep → PartSession × Except TreeError Unit
  | [] => (s, .ok ())
  | step :: steps =>
    match runStep s self step with
    | .ok s => runSteps s self steps
    | .error e => (s, .error e)

def setup (σ : Setup) (s : PartSession) (id : ComponentId) : PartSession × Except TreeError Unit :=
  match σ with
  | .noteEditor owner => (s.update owner (noteEditor id), .ok ())
  | .script steps => runSteps s id steps

/-- what demo components do over the shared rows -/
def behaviour (shared : List Row) : Behaviour Model Handler Setup where
  hook := hook shared
  handle := handle
  setup := setup

end UiSync.Demo
