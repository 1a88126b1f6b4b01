import StepScript.Expr.Substitution
import StepScript.Language

/-! What a single line does. A `declare` or `execute` line gives a new scope; a `while` or `break`
line asks for a change of control. -/
namespace StepScript

inductive Action where
  | update (scope : Scope)
  | loop (condition : Text)
  | leave

/-- The outcome of a line, the messages shown on the way, and the entropy that is left. -/
structure Performance where
  result : Except Error Action
  shown : List Message
  entropy : Entropy

namespace Action

/-- The kind of a type written before a variable. -/
def writtenKind (language : Language) (type? : Option Text) : Except Error (Option Kind) :=
  match type? with
  | none => .ok none
  | some name => (fun t => some t.kind) <$> language.type name

/-- A written type agrees with the kind a variable has already. -/
def checkWritten (name : Text) (existing : Kind) : Option Kind → Except Error Unit
  | none => .ok ()
  | some written =>
    if written = existing then .ok () else .error (.typeRedeclaration name existing written)

/-- A variable that exists keeps its kind; a new one needs a written type and becomes local. -/
def declare (language : Language) (scope : Scope) (text : Text) : Except Error Scope := do
  let target ← Statement.declaredTarget text
  let written? ← writtenKind language target.type?
  let expr ← Statement.declaredExpr text
  match scope.get? target.name with
  | some old =>
    checkWritten target.name old.kind written?
    scope.assign target.name (← Expr.evaluate old.kind expr scope)
  | none =>
    match written? with
    | none => .error (.missingType target.name)
    | some kind =>
      checkName target.name
      scope.declareLocal target.name (← Expr.evaluate kind expr scope)

/-- The arguments of a call, each evaluated for the kind of its parameter. -/
def evaluateArgs (signature : Signature) (scope : Scope) (index : Nat) :
    List Text → Except Error (List Value)
  | [] => .ok []
  | raw :: more => do
    let value ← Expr.evaluate ((signature.paramKind? index).getD .string) raw scope
    return value :: (← evaluateArgs signature scope (index + 1) more)

/-- The method of a call and its arguments; their number is checked before they are evaluated. -/
def prepareCall (language : Language) (scope : Scope) (text : Text) :
    Except Error (Method × List Value) := do
  let method ← language.method (← Statement.methodName text)
  let raw ← Statement.methodArgs text
  method.checkArity raw.length
  return (method, ← evaluateArgs method.toSignature scope 0 raw)

/-- Binds what a call returned to the target of the statement. -/
def store (language : Language) (scope : Scope) (method : Text) (target : Statement.Target)
    (value : Value) : Except Error Scope := do
  let written? ← writtenKind language target.type?
  match scope.get? target.name with
  | some old =>
    checkWritten target.name old.kind written?
    if value.kind = old.kind then scope.assign target.name value
    else .error (.returnTypeMismatch target.name method old.kind value.kind)
  | none =>
    match written? with
    | none => scope.declareLocal target.name value
    | some written =>
      if written = value.kind then scope.declareLocal target.name value
      else .error (.returnTypeMismatch target.name method written value.kind)

/-- The scope after a call; the target is read once the call has returned. -/
def receive (language : Language) (scope : Scope) (method text : Text) (returned? : Option Value) :
    Except Error Scope := do
  match ← Statement.callTarget text with
  | none => .ok scope
  | some target =>
    match returned? with
    | none => .error (.noReturnValue method)
    | some value => store language scope method target value

def execute (language : Language) (entropy : Entropy) (scope : Scope) (text : Text) :
    Performance :=
  match prepareCall language scope text with
  | .error e => ⟨.error e, [], entropy⟩
  | .ok (method, args) =>
    let reply := method.call entropy args
    let result := reply.result.bind (receive language scope method.name text)
    ⟨.update <$> result, reply.shown, entropy.next⟩

/-- The condition of a `while` line, with or without a semicolon at its end. -/
def loopCondition (text : Text) : Text :=
  ((Text.dropSuffix? ';' text).getD text).trim

def perform (language : Language) (entropy : Entropy) (scope : Scope) (raw : Text) :
    Performance :=
  let text := Line.body raw
  match Line.preceder raw with
  | .error e => ⟨.error e, [], entropy⟩
  | .ok .declare => ⟨.update <$> declare language scope text, [], entropy⟩
  | .ok .execute => execute language entropy scope text
  | .ok .while => ⟨.ok (.loop (loopCondition text)), [], entropy⟩
  | .ok .break => ⟨.ok .leave, [], entropy⟩

end Action
end StepScript
