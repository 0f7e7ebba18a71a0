import UiSync.FieldBag

/-!
# Fields every client knows

The names of the fields with a meaning to the client, how they are read when they are missing or
of another type, and the rules of an input field derived from them: when its required mark, its
error and its tooltip show.
-/

namespace UiSync

open Json

namespace FieldName

def caption : String := "caption"
def description : String := "description"
def enabled : String := "enabled"
def readOnly : String := "readOnly"
def propertyReadOnly : String := "propertyReadOnly"
def required : String := "required"
def modified : String := "modified"
def errorMessage : String := "errorMessage"
def showErrorForDisabled : String := "showErrorForDisabledState"

end FieldName

namespace FieldBag

/-- sets a text field, or removes it -/
def setText (b : FieldBag) (name : String) : Option String → FieldBag
  | some text => b.set name (.string text)
  | none => b.remove name

/-- a text field that is not empty -/
def nonEmptyText? (b : FieldBag) (name : String) : Option String :=
  (b.getString? name).filter (!·.isEmpty)

def caption? (b : FieldBag) : Option String := b.getString? FieldName.caption

def setCaption (b : FieldBag) (caption : Option String) : FieldBag :=
  b.setText FieldName.caption caption

def description? (b : FieldBag) : Option String := b.nonEmptyText? FieldName.description

def setDescription (b : FieldBag) (description : String) : FieldBag :=
  b.set FieldName.description (.string description)

/-- enabled unless the field says otherwise -/
def isEnabled (b : FieldBag) : Bool :=
  ((b.get? FieldName.enabled).bind Value.bool?).getD true

def setEnabled (b : FieldBag) (on : Bool) : FieldBag := b.set FieldName.enabled (.bool on)

/-- read-only by itself or through the property it is bound to -/
def isReadOnly (b : FieldBag) : Bool :=
  b.getBool FieldName.readOnly || b.getBool FieldName.propertyReadOnly

def setReadOnly (b : FieldBag) (on : Bool) : FieldBag := b.set FieldName.readOnly (.bool on)

def setPropertyReadOnly (b : FieldBag) (on : Bool) : FieldBag :=
  b.set FieldName.propertyReadOnly (.bool on)

def isRequired (b : FieldBag) : Bool := b.getBool FieldName.required

def setRequired (b : FieldBag) (on : Bool) : FieldBag := b.set FieldName.required (.bool on)

def isModified (b : FieldBag) : Bool := b.getBool FieldName.modified

def setModified (b : FieldBag) (on : Bool) : FieldBag := b.set FieldName.modified (.bool on)

def errorMessage? (b : FieldBag) : Option String := b.nonEmptyText? FieldName.errorMessage

def setErrorMessage (b : FieldBag) (message : Option String) : FieldBag :=
  b.setText FieldName.errorMessage message

def showsErrorWhenDisabled (b : FieldBag) : Bool := b.getBool FieldName.showErrorForDisabled

def setShowErrorWhenDisabled (b : FieldBag) (on : Bool) : FieldBag :=
  b.set FieldName.showErrorForDisabled (.bool on)

/-- the required mark is hidden while the field is read-only -/
def showsRequiredIndicator (b : FieldBag) : Bool := b.isRequired && !b.isReadOnly

/-- the error a tooltip may show: a disabled field hides its own unless told otherwise -/
def visibleError? (b : FieldBag) : Option String :=
  if b.isEnabled || b.showsErrorWhenDisabled then b.errorMessage? else none

def hasTooltip (b : FieldBag) : Bool := b.description?.isSome || b.visibleError?.isSome

end FieldBag

end UiSync
