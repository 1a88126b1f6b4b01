import StepScript.Line
import StepScript.Method

/-! A language: the value types and the methods that scripts can use, and a display name. Types are
kept in the order of their kinds and methods in the order of their names, so a language does not
depend on the order of registration. Lookups ignore letter case. -/
namespace StepScript

/-- A registered type: the value a new variable would start with, and what it is for. -/
structure ValueType where
  prototype : Value
  description : Text
deriving DecidableEq

def ValueType.kind (type : ValueType) : Kind :=
  type.prototype.kind

def ValueType.name (type : ValueType) : Text :=
  type.kind.name.toList

structure Language where
  name : Text
  types : List ValueType
  methods : List Method

/-- What an editor needs to describe a language. -/
structure Manifest where
  name : Text
  preceders : List String
  types : List (Text × Text)
  methods : List Signature
deriving DecidableEq

namespace Language

def checkedName (name : Text) : Except Error Text :=
  if name.trim.isEmpty then .error .blankName else .ok name.trim

/-- A language without types and methods. -/
def empty (name : Text) : Except Error Language := do
  return ⟨← checkedName name, [], []⟩

def rename (language : Language) (name : Text) : Except Error Language := do
  return { language with name := ← checkedName name }

def registerType (language : Language) (prototype : Value) (description : Text) :
    Except Error Language :=
  let type : ValueType := ⟨prototype, description⟩
  if language.types.any fun t => t.kind = type.kind then
    .error (.duplicateRegistration type.name)
  else
    let types := insertOrdered (fun a b => a.kind.rank < b.kind.rank) type language.types
    .ok { language with types }

def registerMethod (language : Language) (method : Method) : Except Error Language :=
  if language.methods.any fun m => m.name.lower == method.name.lower then
    .error (.duplicateRegistration method.name)
  else
    let methods := insertOrdered (fun a b => a.name < b.name) method language.methods
    .ok { language with methods }

def findType? (language : Language) (name : Text) : Option ValueType :=
  language.types.find? fun t => t.name.sameWord name.trim

def findMethod? (language : Language) (name : Text) : Option Method :=
  language.methods.find? fun m => m.name.sameWord name.trim

def type (language : Language) (name : Text) : Except Error ValueType :=
  match language.findType? name with
  | some t => .ok t
  | none => .error (.unsupportedType name.trim)

def method (language : Language) (name : Text) : Except Error Method :=
  match language.findMethod? name with
  | some m => .ok m
  | none => .error (.unsupportedMethod name.trim)

def manifest (language : Language) : Manifest where
  name := language.name
  preceders := Preceder.all.map Preceder.keyword
  types := language.types.map fun t => (t.name, t.description)
  methods := language.methods.map Method.toSignature

end Language
end StepScript
