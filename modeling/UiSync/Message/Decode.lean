import UiSync.Json.Record
import UiSync.Message.Encode

/-!
# Reading messages

Every message is a record of records. Only a change of the tree is read differently: its member
`type`, which may stand anywhere, says which fields it has, so all its members are read as plain
values first and looked at afterwards. What is wrong with them is then no longer tied to a place
and is reported where the list around them is closed.

At most 127 arrays and objects may be nested, the message itself included.
-/

namespace UiSync

open Json

/-- a payload that is no message, with the place and the reason -/
structure Malformed where
  kind : MessageKind
  line : Nat
  column : Nat
  reason : Reason

def Malformed.message (e : Malformed) : String :=
  "Malformed " ++ e.kind.text ++ " at line " ++ toString e.line ++ ", column " ++
    toString e.column ++ ": " ++ e.reason.message ++ " at line " ++ toString e.line ++
    " column " ++ toString e.column

namespace Decode

/-- the arrays and objects that may be nested in each other -/
def greatestDepth : Nat := 127

/-! ## Fields -/

def asId (x : Scalar) : Except Reason ComponentId := (x.natBelow 64 "u64").map (⟨·⟩)

def asSequence (x : Scalar) : Except Reason SequenceNumber :=
  (x.natBelow 16 "u16").map fun n => ⟨UInt16.ofNat n⟩

def id (_room : Nat) (s : Bytes) : Reading ComponentId := readAs asId s

def sequence (_room : Nat) (s : Bytes) : Reading SequenceNumber := readAs asSequence s

def lastSequence (_room : Nat) (s : Bytes) : Reading (Option SequenceNumber) :=
  readAs (Scalar.orNull asSequence) s

def version (_room : Nat) (s : Bytes) : Reading Nat := readAs (Scalar.natBelow 64 "u64") s

def text (_room : Nat) (s : Bytes) : Reading String := readAs Scalar.asString s

def flag (_room : Nat) (s : Bytes) : Reading Bool := readAs Scalar.asBool s

def args (room : Nat) (s : Bytes) : Reading (List Value) := readList room readValue s

/-- the value of a field, or its name when it is missing -/
def given (name : String) : Option α → Except String α
  | some a => .ok a
  | none => .error name

/-! ## Invocations -/

structure InvocationDraft where
  component : Option ComponentId := none
  interface : Option String := none
  method : Option String := none
  args : Option (List Value) := none
  sequence : Option SequenceNumber := none

def invocationShape : RecordShape InvocationDraft Invocation where
  title := "struct ServerRpcCall"
  fields := [
    .required "component" (·.component.isSome) id fun d a => { d with component := some a },
    .required "interface" (·.interface.isSome) text fun d a => { d with interface := some a },
    .required "method" (·.method.isSome) text fun d a => { d with method := some a },
    .required "args" (·.args.isSome) args fun d a => { d with args := some a },
    .required "sequence" (·.sequence.isSome) sequence fun d a => { d with sequence := some a }]
  blank := {}
  finish d := do
    return ⟨← given "component" d.component, ← given "interface" d.interface,
      ← given "method" d.method, ← given "args" d.args, ← given "sequence" d.sequence⟩

/-! ## Client messages -/

structure ClientDraft where
  lastResponse : Option (Option SequenceNumber) := none
  invocations : Option (List Invocation) := none

def clientShape : RecordShape ClientDraft ClientMessage where
  title := "struct ClientMessage"
  fields := [
    .required "lastResponse" (·.lastResponse.isSome) lastSequence
      fun d a => { d with lastResponse := some a },
    .required "invocations" (·.invocations.isSome)
      (fun room s => readList room invocationShape.read s)
      fun d a => { d with invocations := some a }]
  blank := {}
  finish d := do return ⟨d.lastResponse.getD none, ← given "invocations" d.invocations⟩

/-! ## Changes of the tree -/

/-- the two kinds of change -/
inductive ChangeTag where
  | attached
  | detached

namespace ChangeTag

def ofScalar : Scalar → Except Reason ChangeTag
  | .string "attached" => .ok attached
  | .string "detached" => .ok detached
  | .string name => .error (.unknownVariant name "`attached` or `detached`")
  | x => x.refuse "variant identifier"

/-- the fields in order -/
def fields : ChangeTag → List String
  | attached => ["id", "parent", "kind"]
  | detached => ["id"]

/-- the array form in reports -/
def arrayTitle : ChangeTag → String
  | attached => "struct variant HierarchyChange::Attached with 3 elements"
  | detached => "struct variant HierarchyChange::Detached with 1 element"

/-- the length of the array form in reports -/
def lengthTitle : ChangeTag → String
  | attached => "3 elements in sequence"
  | detached => "1 element in sequence"

end ChangeTag

structure ChangeDraft where
  id : Option ComponentId := none
  parent : Option (Option ComponentId) := none
  kind : Option String := none

namespace ChangeDraft

def has (d : ChangeDraft) (field : String) : Bool :=
  if field = "id" then d.id.isSome
  else if field = "parent" then d.parent.isSome
  else d.kind.isSome

def put (d : ChangeDraft) (field : String) (v : Value) : Except Reason ChangeDraft :=
  if field = "id" then (asId v.scalar).map fun a => { d with id := some a }
  else if field = "parent" then
    (v.scalar.orNull asId).map fun a => { d with parent := some a }
  else v.scalar.asString.map fun a => { d with kind := some a }

/-- adds one member, ignoring those that are no field of the change -/
def putMember (tag : ChangeTag) (d : ChangeDraft) (member : String × Value) :
    Except Reason ChangeDraft :=
  if tag.fields.contains member.1 then
    if d.has member.1 then .error (.duplicateField member.1) else d.put member.1 member.2
  else .ok d

/-- adds values in the order of the fields; `i` fields came before -/
def putItems (tag : ChangeTag) : List String → List Value → Nat → ChangeDraft →
    Except Reason ChangeDraft
  | [], [], _, d => .ok d
  | [], more, i, _ => .error (.invalidLength (i + more.length) tag.lengthTitle)
  | _ :: _, [], i, _ => .error (.invalidLength i tag.arrayTitle)
  | field :: fields, v :: vs, i, d => do putItems tag fields vs (i + 1) (← d.put field v)

def finish (tag : ChangeTag) (d : ChangeDraft) : Except Reason TreeChange :=
  match tag, d.id, d.kind with
  | _, none, _ => .error (.missingField "id")
  | .detached, some i, _ => .ok (.detached i)
  | .attached, some _, none => .error (.missingField "kind")
  | .attached, some i, some kind => .ok (.attached i (d.parent.getD none) kind)

end ChangeDraft

/-- the plain values of a change: members or items -/
inductive ChangeContent where
  | members (ms : List (String × Value))
  | items (vs : List Value)

def ChangeContent.change (tag : ChangeTag) : ChangeContent → Except Reason TreeChange
  | members ms => do ChangeDraft.finish tag (← ms.foldlM (ChangeDraft.putMember tag) {})
  | items vs => do ChangeDraft.finish tag (← ChangeDraft.putItems tag tag.fields vs 0 {})

/-- the tag read so far and the other members, last first -/
structure ChangeMembers where
  tag : Option ChangeTag := none
  others : List (String × Value) := []

/-- reads what follows a key of a change -/
def readChangeMember (room : Nat) (c : ChangeMembers) (key : String) (s : Bytes) :
    Except Fault (ChangeMembers × Bytes) :=
  if key = "type" then
    if c.tag.isSome then .error (.unplaced (.duplicateField "type") s)
    else do
      let (tag, s) ← readAs ChangeTag.ofScalar (← readColon s)
      return ({ c with tag := some tag }, s)
  else do
    let (v, s) ← readValue room (← readColon s)
    return ({ c with others := (key, v) :: c.others }, s)

/-- the tag and the content of the object form -/
def taggedMembers (read : ChangeMembers × Bytes) :
    Except Fault ((ChangeTag × ChangeContent) × Bytes) :=
  match read.1.tag with
  | some tag => .ok ((tag, .members read.1.others.reverse), read.2)
  | none => .error (.unplaced (.missingField "type") read.2)

/-- reads the array form after its bracket, the tag first -/
def readTaggedItems (room : Nat) (s : Bytes) :
    Except Fault ((ChangeTag × ChangeContent) × Bytes) := do
  let (more, s) ← nextElement true s
  if more then
    let (tag, s) ← readAs ChangeTag.ofScalar s
    let (vs, s) ← readElements (readValue room) (s.length + 1) false [] s
    return ((tag, .items vs), s)
  else .error (.unplaced (.missingField "type") s)

/-- reads the tag and the content of a change -/
def readTagged (room : Nat) (s : Bytes) : Except Fault ((ChangeTag × ChangeContent) × Bytes) := do
  let (scalar, s) ← readScalar s
  match scalar, room with
  | .array, 0 => .error (.next .recursionLimit s)
  | .object, 0 => .error (.next .recursionLimit s)
  | .array, room + 1 => closeArray (readTaggedItems room s.tail)
  | .object, room + 1 =>
    closeObject ((readMembers (readChangeMember room) s.length true {} s.tail).bind taggedMembers)
  | x, _ => .error (.here (.invalidType x.found "internally tagged enum HierarchyChange") s)

/-- reads a change of the tree -/
def treeChange (room : Nat) (s : Bytes) : Except Fault (TreeChange × Bytes) := do
  let ((tag, content), s) ← readTagged room s
  match content.change tag with
  | .ok change => .ok (change, s)
  | .error reason => .error (.unplaced reason s)

/-! ## Changes of fields -/

structure FieldChangeDraft where
  component : Option ComponentId := none
  version : Option Nat := none
  diff : Option Diff := none

def fieldChangeShape : RecordShape FieldChangeDraft FieldChange where
  title := "struct StateChange"
  fields := [
    .required "component" (·.component.isSome) id fun d a => { d with component := some a },
    .required "version" (·.version.isSome) version fun d a => { d with version := some a },
    .required "diff" (·.diff.isSome) readMap fun d a => { d with diff := some a }]
  blank := {}
  finish d := do
    return ⟨← given "component" d.component, ← given "version" d.version, ← given "diff" d.diff⟩

/-! ## Calls -/

structure CallDraft where
  component : Option ComponentId := none
  interface : Option String := none
  method : Option String := none
  args : Option (List Value) := none

def callShape : RecordShape CallDraft ClientCall where
  title := "struct ClientRpcCall"
  fields := [
    .required "component" (·.component.isSome) id fun d a => { d with component := some a },
    .required "interface" (·.interface.isSome) text fun d a => { d with interface := some a },
    .required "method" (·.method.isSome) text fun d a => { d with method := some a },
    .required "args" (·.args.isSome) args fun d a => { d with args := some a }]
  blank := {}
  finish d := do
    return ⟨← given "component" d.component, ← given "interface" d.interface,
      ← given "method" d.method, ← given "args" d.args⟩

/-! ## Server messages -/

structure ServerDraft where
  sequence : Option SequenceNumber := none
  resynchronize : Option Bool := none
  hierarchy : Option (List TreeChange) := none
  changes : Option (List FieldChange) := none
  calls : Option (List ClientCall) := none

def serverShape : RecordShape ServerDraft ServerMessage where
  title := "struct ServerMessage"
  fields := [
    .required "sequence" (·.sequence.isSome) sequence fun d a => { d with sequence := some a },
    { FieldReader.required "resynchronize" (·.resynchronize.isSome) flag
        fun (d : ServerDraft) a => { d with resynchronize := some a } with
      default? := some fun d => { d with resynchronize := some false } },
    .required "hierarchy" (·.hierarchy.isSome) (fun room s => readList room treeChange s)
      fun d a => { d with hierarchy := some a },
    .required "changes" (·.changes.isSome)
      (fun room s => readList room fieldChangeShape.read s)
      fun d a => { d with changes := some a },
    .required "calls" (·.calls.isSome) (fun room s => readList room callShape.read s)
      fun d a => { d with calls := some a }]
  blank := {}
  finish d := do
    return ⟨← given "sequence" d.sequence, d.resynchronize.getD false,
      ← given "hierarchy" d.hierarchy, ← given "changes" d.changes, ← given "calls" d.calls⟩

/-! ## Payloads -/

/-- reads a whole payload as a message of the given kind -/
def payload (kind : MessageKind) (shape : RecordShape δ α) (bytes : Bytes) :
    Except Malformed α :=
  match readWhole (shape.read greatestDepth) bytes with
  | .ok message => .ok message
  | .error fault =>
    let (line, column) := fault.place bytes
    .error ⟨kind, line, column, fault.reason⟩

end Decode

/-- reads a client message -/
def ClientMessage.decode (payload : Bytes) : Except Malformed ClientMessage :=
  Decode.payload .client Decode.clientShape payload

/-- reads a server message -/
def ServerMessage.decode (payload : Bytes) : Except Malformed ServerMessage :=
  Decode.payload .server Decode.serverShape payload

end UiSync
