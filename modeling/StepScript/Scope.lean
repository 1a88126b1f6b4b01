import StepScript.Scope.Table
import StepScript.Statement

/-! The variables a line can see. Interactive ones are seeded by the host and outlive a run; locals
belong to one run. Names are held in lower case, and an interactive variable hides a local one. -/
namespace StepScript

structure Scope where
  locals : Table
  interactive : Table

namespace Scope

def empty : Scope := ⟨[], []⟩

/-- A name as the tables hold it. -/
def key (name : Text) : Text :=
  name.trim.lower

def get? (scope : Scope) (name : Text) : Option Value :=
  (scope.interactive.find? (key name)).or (scope.locals.find? (key name))

/-- A binding keeps its kind. -/
def checkKind (name : Text) (old new : Value) : Except Error Unit :=
  if old.kind = new.kind then .ok ()
  else .error (.typeRedeclaration (key name) old.kind new.kind)

def setInteractive (scope : Scope) (name : Text) (value : Value) : Except Error Scope :=
  match scope.interactive.find? (key name) with
  | none => .error (.unknownVariable name.trim)
  | some old => do
    checkKind name old value
    return { scope with interactive := scope.interactive.insert (key name) value }

/-- Overwrites a variable in the table that shows it. -/
def assign (scope : Scope) (name : Text) (value : Value) : Except Error Scope :=
  match scope.interactive.find? (key name), scope.locals.find? (key name) with
  | some _, _ => scope.setInteractive name value
  | none, some old => do
    checkKind name old value
    return { scope with locals := scope.locals.insert (key name) value }
  | none, none => .error (.unknownVariable name.trim)

def declareLocal (scope : Scope) (name : Text) (value : Value) : Except Error Scope := do
  checkName name.trim
  return { scope with locals := scope.locals.insert (key name) value }

def addInteractive (scope : Scope) (name : Text) (value : Value) : Except Error Scope := do
  checkName name.trim
  match scope.interactive.find? (key name) with
  | some _ => .error (.duplicateVariable name.trim)
  | none => return { scope with interactive := scope.interactive.insert (key name) value }

def getInteractive (scope : Scope) (name : Text) : Except Error Value :=
  match scope.interactive.find? (key name) with
  | some value => .ok value
  | none => .error (.unknownVariable name.trim)

def resetLocals (scope : Scope) : Scope :=
  { scope with locals := [] }

/-- Takes over the values a loop body gave to the variables of this scope. Variables the body
declared stay behind. -/
def absorb (scope body : Scope) : Scope :=
  ⟨scope.locals.absorb body.locals, scope.interactive.absorb body.interactive⟩

/-- Variables in the order in which an expression replaces them: locals, then interactive ones, and
in each table a name before the names it may contain. -/
def substitutionOrder (scope : Scope) : Table :=
  scope.locals.longestFirst ++ scope.interactive.longestFirst

def same (a b : Scope) : Bool :=
  a.locals.same b.locals && a.interactive.same b.interactive

end Scope
end StepScript
