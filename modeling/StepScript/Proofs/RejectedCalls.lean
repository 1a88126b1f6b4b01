import StepScript.Proofs.CheckedCalls
import StepScript.Proofs.MissingOperators

/-! Rejected calls. A call statement has two parts: the call, and what is done with the value that
comes back. Where the first one fails, no method has run; its errors are never about the target. The
target is read in the second part, so that a statement whose target could have been refused from the
start has run its method by then, and has shown what the method shows. -/
namespace StepScript

namespace Error

/-- Errors about the target of a call that depend on the statement and on the variables alone. -/
def ofTarget : Error → Bool
  | .malformed .target _ | .unsupportedType _ | .typeRedeclaration .. | .invalidVariableName _ =>
    true
  | _ => false

/-- Errors about what becomes of the value of a call. -/
def ofReturn : Error → Bool
  | .noReturnValue _ | .returnTypeMismatch .. => true
  | e => e.ofTarget

/-- The computation has no errors about a call that has returned. -/
def Early {α : Type} (x : Except Error α) : Prop :=
  ∀ e, x = .error e → e.ofReturn = false

namespace Early

variable {α β : Type} {x : Except Error α}

@[simp] theorem ok (a : α) : Early (.ok a : Except Error α) := by
  rintro e ⟨⟩

@[simp] theorem error {e : Error} : Early (.error e : Except Error α) ↔ e.ofReturn = false := by
  simp [Early]

@[simp] theorem map {f : α → β} : Early (f <$> x) ↔ Early x := by
  simp only [Early, map_error]

theorem bind {f : α → Except Error β} (first : Early x) (next : ∀ a, x = .ok a → Early (f a)) :
    Early (x >>= f) := by
  intro e failed
  rcases bind_error.mp failed with early | ⟨a, done, late⟩
  · exact first e early
  · exact next a done e late

theorem ite {c : Prop} [Decidable c] {y : Except Error α} (first : Early x) (second : Early y) :
    Early (if c then x else y) := by
  split
  · exact first
  · exact second

theorem mapM {f : α → Except Error β} (each : ∀ a, Early (f a)) (as : List α) :
    Early (as.mapM f) := by
  induction as with
  | nil => exact ok []
  | cons a as ih =>
    rw [List.mapM_cons]
    exact bind (each a) fun b _ => map.mpr ih

end Early
end Error

open StepScript.Error

section Texts

theorem early_checkQuotes (t : Text) : Early (Quoted.check t) := by
  refine Early.map.mpr fun e failed => ?_
  obtain ⟨column, rfl⟩ := Quoted.spansFrom_error failed
  rfl

theorem early_groupSpans (t : Text) : Early (Group.spans t) := by
  intro e failed
  obtain ⟨text, rfl⟩ := Group.spans_error failed
  rfl

namespace Statement

theorem early_body (text : Text) : Early (body text) := by
  unfold body
  split <;> simp [ofReturn, ofTarget]

theorem early_splitAssignment (body : Text) : Early (splitAssignment body) :=
  Early.bind (early_checkQuotes body) fun _ _ => Early.ok _

theorem early_call (text : Text) : Early (call text) := by
  refine Early.bind (early_body text) fun body _ => ?_
  refine Early.bind (early_splitAssignment body) fun sides? _ => ?_
  refine Early.bind (early_checkQuotes _) fun _ _ => ?_
  refine Early.bind (early_groupSpans _) fun spans _ => ?_
  split
  · exact Early.error.mpr rfl
  · exact Early.ite (Early.ok _) (Early.error.mpr rfl)

theorem early_methodName (text : Text) : Early (methodName text) :=
  Early.bind (early_call text) fun _ _ => Early.ite (Early.error.mpr rfl) (Early.ok _)

theorem early_methodArgs (text : Text) : Early (methodArgs text) := by
  refine Early.bind (early_call text) fun call _ => Early.ite (Early.ok _) ?_
  refine Early.bind (early_checkQuotes _) fun _ _ => ?_
  exact Early.ite (Early.error.mpr rfl) (Early.ok _)

end Statement
end Texts

section Expressions

theorem Arithmetic.early_evaluate {α : Type} {domain : Domain α} (divides : domain.DividesAtMost)
    (text : Text) : Early (evaluate domain text) := by
  unfold evaluate
  dsimp only
  split
  · refine Early.bind (fun e failed => ?_) fun _ _ e failed => ?_
    · rw [products_error divides failed]
      rfl
    · rw [sums_error divides failed]
      rfl
  · exact Early.error.mpr rfl

theorem Concatenation.early_join (literals : List (Text × Text)) : Early (join literals) := by
  fun_induction join literals with
  | case1 => exact Early.ok _
  | case2 contents trail => exact Early.ok _
  | case3 contents gap more _ plus ih => exact Early.map.mpr ih
  | case4 contents gap more _ other => exact Early.error.mpr rfl

theorem Concatenation.early_evaluate (text : Text) : Early (evaluate text) := by
  unfold evaluate
  dsimp only
  split
  · exact Early.error.mpr rfl
  · exact Early.ite (early_join _) (Early.error.mpr rfl)

namespace Condition

theorem early_scanOne (pos : Nat) (c : Char)
    {next : Option Nat → Except Error (List (Lexeme Token))} (rest : ∀ o, Early (next o)) :
    Early (scanOne pos c next) := by
  unfold scanOne
  refine Early.ite (Early.map.mpr (rest _)) (Early.ite (Early.map.mpr (rest _)) ?_)
  refine Early.ite (Early.error.mpr rfl) ?_
  split <;> exact Early.map.mpr (rest _)

theorem early_scanFrom (pos : Nat) (opening? : Option Nat) (t : Text) :
    Early (scanFrom pos opening? t) := by
  fun_induction scanFrom pos opening? t with
  | case1 => exact Early.ok _
  | case2 => exact Early.error.mpr rfl
  | case3 pos opening c t quote ih => exact Early.map.mpr ih
  | case4 pos opening c t other ih => exact Early.map.mpr ih
  | case5 pos c ih => exact early_scanOne pos c ih
  | case6 pos c d t op pair ih => exact Early.map.mpr ih
  | case7 pos c d t alone ih => exact early_scanOne pos c ih

theorem early_evaluateArithmetic (kind : Kind) (text : Text) :
    Early (evaluateArithmetic kind text) :=
  Early.ite (Early.map.mpr (Arithmetic.early_evaluate Arithmetic.doubles_dividesAtMost text))
    (Early.map.mpr (Arithmetic.early_evaluate Arithmetic.ints_dividesAtMost text))

theorem early_operandValue (raw : Text) : Early (operandValue raw) := by
  refine Early.ite (Early.map.mpr (Concatenation.early_evaluate _)) ?_
  split
  · exact Early.ok _
  · exact Early.ite (early_evaluateArithmetic _ _) (Early.error.mpr rfl)

theorem early_toBool (v : Value) : Early (toBool v) := by
  cases v <;> simp [toBool, ofReturn, ofTarget]

theorem early_compare (op : Comparison) (left right : Value) : Early (compare op left right) := by
  unfold compare
  split
  · exact Early.ok _
  · exact Early.ok _
  · split <;> simp [ofReturn, ofTarget]

theorem early_fold (any all : Bool) (acc : Value) (more : List (Operator × Value)) :
    Early (fold any all acc more) := by
  fun_induction fold any all acc more with
  | case1 any all acc => exact Early.bind (early_toBool acc) fun _ _ => Early.ok _
  | case2 any all acc op value more ih =>
    exact Early.bind (early_compare op acc value) fun holds _ => ih holds
  | case3 any all acc value more ih => exact Early.bind (early_toBool acc) fun term _ => ih term
  | case4 any all acc value more ih => exact Early.bind (early_toBool acc) fun term _ => ih term

theorem early_evaluate (text : Text) : Early (evaluate text) := by
  refine Early.bind (Early.map.mpr (early_scanFrom 0 none text)) fun pieces _ => ?_
  refine Early.bind (Early.mapM (fun piece => ?_) pieces) fun items _ => ?_
  · cases piece with
    | operand text => exact Early.map.mpr (early_operandValue text)
    | operator op => exact Early.ok _
  · split
    · exact early_fold false true _ _
    · exact Early.error.mpr rfl

end Condition

namespace Expr

theorem early_evaluateFlat (kind : Kind) (text : Text) : Early (evaluateFlat kind text) := by
  cases kind with
  | int => exact Early.map.mpr (Arithmetic.early_evaluate Arithmetic.ints_dividesAtMost text)
  | double => exact Early.map.mpr (Arithmetic.early_evaluate Arithmetic.doubles_dividesAtMost text)
  | string => exact Early.map.mpr (Concatenation.early_evaluate text)
  | bool => exact Early.map.mpr (Condition.early_evaluate text)

theorem early_resolve (target : Kind) (count : Nat) (text : Text) :
    Early (resolve target count text) := by
  induction count generalizing text with
  | zero => exact Early.ok text
  | succ count ih =>
    rw [resolve]
    split
    · exact Early.ok text
    · exact Early.bind (early_evaluateFlat _ _) fun _ _ => ih _

theorem early_substitute (table : Table) (text : Text) : Early (substitute table text) := by
  induction table generalizing text with
  | nil => exact Early.ok text
  | cons binding more ih => exact Early.bind (early_checkQuotes text) fun _ _ => ih _

theorem early_evaluate (kind : Kind) (raw : Text) (scope : Scope) :
    Early (evaluate kind raw scope) := by
  refine Early.bind (early_checkQuotes _) fun _ _ => ?_
  refine Early.bind (early_substitute _ _) fun replaced _ => ?_
  refine Early.bind (early_checkQuotes _) fun _ _ => ?_
  refine Early.bind (Early.map.mpr (early_groupSpans _)) fun _ _ => ?_
  exact Early.bind (early_resolve _ _ _) fun _ _ => early_evaluateFlat kind _

end Expr
end Expressions

namespace Action

variable {language : Language} {scope : Scope} {text name : Text} {method : Method}
  {args : List Value} {e : Error}

theorem early_evaluateArgs (signature : Signature) (index : Nat) (raw : List Text) :
    Early (evaluateArgs signature scope index raw) := by
  induction raw generalizing index with
  | nil => exact Early.ok []
  | cons first raw ih =>
    exact Early.bind (Expr.early_evaluate _ first scope) fun _ _ =>
      Early.bind (ih (index + 1)) fun _ _ => Early.ok _

/-- What fails before a method runs is not about the value that it would have returned. -/
theorem early_prepareCall (language : Language) (scope : Scope) (text : Text) :
    Early (prepareCall language scope text) := by
  refine Early.bind (Statement.early_methodName text) fun name _ => ?_
  refine Early.bind ?_ fun method _ => ?_
  · unfold Language.method
    split <;> simp [ofReturn, ofTarget]
  · refine Early.bind (Statement.early_methodArgs text) fun raw _ => ?_
    refine Early.bind ?_ fun _ _ => ?_
    · exact Early.ite (Early.error.mpr rfl) (Early.ite (Early.error.mpr rfl) (Early.ok ()))
    · exact Early.bind (early_evaluateArgs _ 0 raw) fun _ _ => Early.ok _

end Action

/-- The language with this behaviour of its methods. -/
def Language.behaving (language : Language) (behaviour : Method → Entropy → List Value → Reply) :
    Language :=
  { language with
    methods := language.methods.map fun method => { method with invoke := behaviour method } }

namespace Action

/-- The statement fails before a method runs: whatever the methods do, nothing is shown and no
entropy is drawn. -/
def Refused (language : Language) (scope : Scope) (text : Text) (e : Error) : Prop :=
  ∀ behaviour entropy,
    execute (language.behaving behaviour) entropy scope text = ⟨.error e, [], entropy⟩

/-- The statement runs this method once, whatever the method does: all that is shown is what it
shows, and what it gives is received by the target. -/
def Runs (language : Language) (scope : Scope) (text : Text) (method : Method)
    (args : List Value) : Prop :=
  ∀ behaviour entropy,
    execute (language.behaving behaviour) entropy scope text =
      ⟨.update <$> (behaviour method entropy args).result.bind
          (receive language scope method.name text),
        (behaviour method entropy args).shown, entropy.next⟩

/-- A fault of the target that can be seen from the statement, the language and the variables: it
has no name or too many words, its type is not registered, the variable exists with another kind
than the written one, or its name cannot be the name of a variable. -/
inductive TargetFault (language : Language) (scope : Scope) (text : Text) : Error → Prop where
  | words {left : Text}
      (unreadable : Statement.callTarget text = .error (.malformed .target left)) :
      TargetFault language scope text (.malformed .target left)
  | type {type name : Text}
      (target : Statement.callTarget text = .ok (some ⟨some type, name⟩))
      (unregistered : language.findType? type = none) :
      TargetFault language scope text (.unsupportedType type.trim)
  | kind {type name : Text} {written : ValueType} {old : Value}
      (target : Statement.callTarget text = .ok (some ⟨some type, name⟩))
      (registered : language.findType? type = some written) (bound : scope.get? name = some old)
      (other : written.kind ≠ old.kind) :
      TargetFault language scope text (.typeRedeclaration name old.kind written.kind)
  | name {type? : Option Text} {name : Text} {written? : Option Kind}
      (target : Statement.callTarget text = .ok (some ⟨type?, name⟩))
      (typed : writtenKind language type? = .ok written?) (free : scope.get? name = none)
      (invalid : isName name.trim = false) :
      TargetFault language scope text (.invalidVariableName name.trim)

/-- The ways in which a call ends whose target has the fault `e`: the method fails, or the fault is
reported, or the value that the method returned is at fault itself and this comes first. -/
inductive Rejects (e : Error) (method : Text) (result : Except Error (Option Value)) :
    Error → Prop where
  | failed {own : Error} (failed : result = .error own) : Rejects e method result own
  | fault (returned : ∃ value?, result = .ok value?) : Rejects e method result e
  | nothing (returned : result = .ok none) (read : ∀ left, e ≠ .malformed .target left) :
      Rejects e method result (.noReturnValue method)
  | mismatch {value : Value} {name : Text} {written : Kind} (returned : result = .ok (some value))
      (hidden : e = .invalidVariableName name.trim) (other : written ≠ value.kind) :
      Rejects e method result (.returnTypeMismatch name method written value.kind)

section Receiving

variable {language : Language} {scope : Scope} {text name method : Text} {type? : Option Text}
  {target : Statement.Target} {value old : Value} {e : Error} {returned? : Option Value}

/-- In a statement with a call the target can only have no words or too many. -/
theorem words_of_callTarget {call : Text} (called : Statement.methodName text = .ok call)
    (failed : Statement.callTarget text = .error e) : ∃ left, e = .malformed .target left := by
  obtain ⟨call, divided, _⟩ := ok_of_bind called
  obtain ⟨body, ended, divided⟩ := ok_of_bind divided
  obtain ⟨sides?, split, _⟩ := ok_of_bind divided
  unfold Statement.callTarget at failed
  rw [ended] at failed
  change (Statement.splitAssignment body >>= _) = _ at failed
  rw [split] at failed
  cases sides? with
  | none => cases failed
  | some sides =>
    replace failed := map_error.mp failed
    unfold Statement.Target.ofText at failed
    split at failed <;> cases failed
    exact ⟨_, rfl⟩

theorem receive_of_target (read : Statement.callTarget text = .ok (some target)) :
    receive language scope method text returned? =
      match returned? with
      | none => .error (.noReturnValue method)
      | some value => store language scope method target value := by
  rw [receive, read]
  rfl

theorem writtenKind_error (failed : writtenKind language type? = .error e) :
    ∃ type, type? = some type ∧ language.findType? type = none ∧
      e = .unsupportedType type.trim := by
  cases type? with
  | none => cases failed
  | some type =>
    replace failed := map_error.mp failed
    unfold Language.type at failed
    split at failed
    · cases failed
    · rename_i missing
      cases failed
      exact ⟨type, rfl, missing, rfl⟩

theorem writtenKind_of_findType? {type : Text} {written : ValueType}
    (found : language.findType? type = some written) :
    writtenKind language (some type) = .ok (some written.kind) := by
  rw [writtenKind, Language.type, found]
  rfl

theorem findType?_of_writtenKind {kind : Kind} (typed : writtenKind language type? = .ok (some kind)) :
    ∃ type written, type? = some type ∧ language.findType? type = some written ∧
      kind = written.kind := by
  cases type? with
  | none => cases typed
  | some type =>
    obtain ⟨written, found, same⟩ := ok_of_map typed
    cases same
    unfold Language.type at found
    split at found
    · rename_i first
      cases found
      exact ⟨type, written, rfl, first, rfl⟩
    · cases found

/-- A variable takes a value of its own kind. -/
theorem assign_sameKind (bound : scope.get? name = some old) (same : value.kind = old.kind) :
    ∃ after, scope.assign name value = .ok after := by
  unfold Scope.assign Scope.setInteractive Scope.checkKind
  unfold Scope.get? at bound
  cases shared : scope.interactive.find? (Scope.key name) with
  | some other =>
    rw [shared] at bound
    cases bound
    exact ⟨_, by simp only [same, if_true]; rfl⟩
  | none =>
    rw [shared, Option.none_or] at bound
    simp only [bound, same, if_true]
    exact ⟨_, rfl⟩

theorem declareLocal_invalid (invalid : isName name.trim = false) :
    scope.declareLocal name value = .error (.invalidVariableName name.trim) := by
  rw [Scope.declareLocal, checkName, if_neg (by simp [invalid])]
  rfl

theorem store_bound {written? : Option Kind} (typed : writtenKind language type? = .ok written?)
    (bound : scope.get? name = some old) :
    store language scope method ⟨type?, name⟩ value =
      checkWritten name old.kind written? >>= fun _ =>
        if value.kind = old.kind then scope.assign name value
        else .error (.returnTypeMismatch name method old.kind value.kind) := by
  unfold store
  dsimp only
  rw [typed, bound]
  rfl

/-- What a call returned becomes a new variable, unless another kind is written before it. -/
def storeNew (scope : Scope) (method name : Text) (value : Value) :
    Option Kind → Except Error Scope
  | none => scope.declareLocal name value
  | some written =>
    if written = value.kind then scope.declareLocal name value
    else .error (.returnTypeMismatch name method written value.kind)

theorem store_free {written? : Option Kind} (typed : writtenKind language type? = .ok written?)
    (free : scope.get? name = none) :
    store language scope method ⟨type?, name⟩ value =
      storeNew scope method name value written? := by
  unfold store
  dsimp only
  rw [typed, free]
  rfl

theorem TargetFault.ofTarget (fault : TargetFault language scope text e) : e.ofTarget = true := by
  cases fault <;> rfl

/-- A faulty target is refused whatever the call returns. -/
theorem TargetFault.rejects (fault : TargetFault language scope text e) (method : Text)
    (returned? : Option Value) : ∃ own, receive language scope method text returned? = .error own ∧
      Rejects e method (.ok returned?) own := by
  have nothing {target : Statement.Target}
      (read : Statement.callTarget text = .ok (some target))
      (other : ∀ left, e ≠ .malformed .target left) :
      ∃ own, receive language scope method text none = .error own ∧
        Rejects e method (.ok none) own := ⟨_, receive_of_target read, .nothing rfl other⟩
  cases fault with
  | words unreadable =>
    refine ⟨_, ?_, .fault ⟨_, rfl⟩⟩
    rw [receive, unreadable]
    rfl
  | type read unregistered =>
    cases returned? with
    | none => exact nothing read nofun
    | some value =>
      refine ⟨_, ?_, .fault ⟨_, rfl⟩⟩
      rw [receive_of_target read]
      unfold store
      rw [writtenKind, Language.type, unregistered]
      rfl
  | kind read registered bound other =>
    cases returned? with
    | none => exact nothing read nofun
    | some value =>
      refine ⟨_, ?_, .fault ⟨_, rfl⟩⟩
      rw [receive_of_target read]
      dsimp only
      rw [store_bound (writtenKind_of_findType? registered) bound, checkWritten, if_neg other]
      rfl
  | @name type? name written? read typed free invalid =>
    cases returned? with
    | none => exact nothing read nofun
    | some value =>
      rw [receive_of_target read]
      dsimp only
      rw [store_free typed free]
      cases written? with
      | none => exact ⟨_, declareLocal_invalid invalid, .fault ⟨_, rfl⟩⟩
      | some written =>
        by_cases same : written = value.kind
        · exact ⟨_, (if_pos same).trans (declareLocal_invalid invalid), .fault ⟨_, rfl⟩⟩
        · exact ⟨_, if_neg same, .mismatch rfl rfl same⟩

theorem checkWritten_error {kind : Kind} {written? : Option Kind}
    (clash : checkWritten name kind written? = .error e) :
    ∃ written, written? = some written ∧ written ≠ kind ∧
      e = .typeRedeclaration name kind written := by
  cases written? with
  | none => cases clash
  | some written =>
    rw [checkWritten] at clash
    split at clash
    · cases clash
    · rename_i other
      cases clash
      exact ⟨written, rfl, other, rfl⟩

theorem declareLocal_error (failed : scope.declareLocal name value = .error e) :
    isName name.trim = false ∧ e = .invalidVariableName name.trim := by
  cases valid : isName name.trim with
  | true =>
    rw [Scope.declareLocal, checkName, if_pos valid] at failed
    cases failed
  | false =>
    rw [declareLocal_invalid valid] at failed
    cases failed
    exact ⟨rfl, rfl⟩

theorem ofReturn_of_ofTarget (about : e.ofTarget = true) : e.ofReturn = true := by
  cases e <;> first | exact about | rfl

/-- What a call can fail for once it has returned: a fault of the target, or the value itself. -/
inductive Returned (language : Language) (scope : Scope) (text : Text) (e : Error) : Prop where
  | target (fault : TargetFault language scope text e)
  | value (about : e.ofReturn = true) (other : e.ofTarget = false)

theorem Returned.ofReturn (returned : Returned language scope text e) : e.ofReturn = true := by
  cases returned with
  | target fault => exact ofReturn_of_ofTarget fault.ofTarget
  | value about => exact about

theorem returned_of_store (read : Statement.callTarget text = .ok (some target))
    (failed : store language scope method target value = .error e) :
    Returned language scope text e := by
  obtain ⟨type?, name⟩ := target
  cases typed : writtenKind language type? with
  | error other =>
    unfold store at failed
    dsimp only at failed
    rw [typed] at failed
    cases failed
    obtain ⟨type, rfl, missing, rfl⟩ := writtenKind_error typed
    exact .target (.type read missing)
  | ok written? =>
    cases bound : scope.get? name with
    | some old =>
      rw [store_bound typed bound] at failed
      rcases bind_error.mp failed with clash | ⟨_, _, failed⟩
      · obtain ⟨kind, rfl, other, rfl⟩ := checkWritten_error clash
        obtain ⟨type, written, rfl, found, rfl⟩ := findType?_of_writtenKind typed
        exact .target (.kind read found bound other)
      · split at failed
        · rename_i same
          obtain ⟨after, assigned⟩ := assign_sameKind bound same
          rw [assigned] at failed
          cases failed
        · cases failed
          exact .value rfl rfl
    | none =>
      rw [store_free typed bound] at failed
      unfold storeNew at failed
      split at failed
      · obtain ⟨invalid, rfl⟩ := declareLocal_error failed
        exact .target (.name read typed bound invalid)
      · split at failed
        · obtain ⟨invalid, rfl⟩ := declareLocal_error failed
          exact .target (.name read typed bound invalid)
        · cases failed
          exact .value rfl rfl

theorem returned_of_receive {call : Text} (called : Statement.methodName text = .ok call)
    (failed : receive language scope method text returned? = .error e) :
    Returned language scope text e := by
  cases read : Statement.callTarget text with
  | error other =>
    rw [receive, read] at failed
    cases failed
    obtain ⟨left, rfl⟩ := words_of_callTarget called read
    exact .target (.words read)
  | ok target? =>
    cases target? with
    | none =>
      rw [receive, read] at failed
      cases failed
    | some target =>
      rw [receive_of_target read] at failed
      cases returned? with
      | none =>
        cases failed
        exact .value rfl rfl
      | some value => exact returned_of_store read failed

end Receiving

section Behaviour

variable {language : Language} {scope : Scope} {text : Text} {method : Method} {args : List Value}
  {e : Error}

theorem behaving_invoke (language : Language) : language.behaving Method.invoke = language := by
  rw [Language.behaving, show (fun method : Method =>
    { method with invoke := Method.invoke method }) = id from rfl, List.map_id]

theorem method_behaving (behaviour : Method → Entropy → List Value → Reply) (name : Text) :
    (language.behaving behaviour).method name =
      (fun method => { method with invoke := behaviour method }) <$> language.method name := by
  have found : (language.behaving behaviour).findMethod? name =
      (language.findMethod? name).map fun method => { method with invoke := behaviour method } :=
    List.find?_map
  unfold Language.method
  rw [found]
  cases language.findMethod? name <;> rfl

/-- A call is prepared without regard to what the methods do. -/
theorem prepareCall_behaving (behaviour : Method → Entropy → List Value → Reply) :
    prepareCall (language.behaving behaviour) scope text =
      (fun (method, args) => ({ method with invoke := behaviour method }, args)) <$>
        prepareCall language scope text := by
  simp only [prepareCall, method_behaving, map_bind, bind_map_left, map_pure]

theorem refused_of_prepareCall (failed : prepareCall language scope text = .error e) :
    Refused language scope text e := by
  intro behaviour entropy
  rw [execute, prepareCall_behaving, failed]
  rfl

theorem runs_of_prepareCall (prepared : prepareCall language scope text = .ok (method, args)) :
    Runs language scope text method args := by
  intro behaviour entropy
  have behaving : prepareCall (language.behaving behaviour) scope text =
      .ok ({ method with invoke := behaviour method }, args) := by
    rw [prepareCall_behaving, prepared]
    rfl
  exact execute_of_prepareCall behaving entropy

/-- A statement that runs a method draws entropy, and one that is refused does not. -/
theorem Runs.not_refused (runs : Runs language scope text method args) :
    ¬Refused language scope text e := by
  intro refused
  have drawn : Entropy.next 0 = 0 := congrArg Performance.entropy
    ((runs Method.invoke 0).symm.trans (refused Method.invoke 0))
  exact absurd drawn (by decide)

/-- What a statement is refused for in advance is not about the value of its call. -/
theorem early_of_refused (refused : Refused language scope text e) : e.ofReturn = false := by
  cases prepared : prepareCall language scope text with
  | error other =>
    have same := congrArg Performance.result
      ((refused_of_prepareCall prepared Method.invoke 0).symm.trans (refused Method.invoke 0))
    cases same
    exact early_prepareCall language scope text e prepared
  | ok call =>
    exact absurd refused (runs_of_prepareCall prepared).not_refused

/-- Nothing runs, or one method of the language does, on arguments that it admits. -/
theorem refused_or_runs (language : Language) (scope : Scope) (text : Text) :
    (∃ e, Refused language scope text e) ∨
      ∃ method ∈ language.methods, ∃ args, method.Admits args ∧
        Runs language scope text method args := by
  cases prepared : prepareCall language scope text with
  | error e => exact .inl ⟨e, refused_of_prepareCall prepared⟩
  | ok call =>
    obtain ⟨method, args⟩ := call
    exact .inr ⟨method, method_of_prepareCall prepared, args, admits_of_prepareCall prepared,
      runs_of_prepareCall prepared⟩

/-- Where an error of a statement comes from: its call could not be made, the method failed, or the
call has returned. -/
theorem source_of_error {entropy : Entropy}
    (failed : (execute language entropy scope text).result = .error e) :
    Refused language scope text e ∨ ∃ method args, Runs language scope text method args ∧
      ((method.invoke entropy args).result = .error e ∨ Returned language scope text e) := by
  cases prepared : prepareCall language scope text with
  | error other =>
    rw [execute, prepared] at failed
    cases failed
    exact .inl (refused_of_prepareCall prepared)
  | ok call =>
    obtain ⟨method, args⟩ := call
    obtain ⟨raw, ⟨⟨name, called, _⟩, _⟩, _⟩ := calls_of_prepareCall prepared
    refine .inr ⟨method, args, runs_of_prepareCall prepared, ?_⟩
    rw [execute_of_prepareCall prepared] at failed
    rcases bind_error.mp (map_error.mp failed) with own | ⟨returned?, _, refused⟩
    · exact .inl own
    · exact .inr (returned_of_receive called refused)

theorem TargetFault.not_refused (fault : TargetFault language scope text e) :
    ¬Refused language scope text e := by
  intro refused
  have early := early_of_refused refused
  rw [ofReturn_of_ofTarget fault.ofTarget] at early
  cases early

/-- A call with a faulty target fails, when its method has run. -/
theorem Runs.rejects (runs : Runs language scope text method args)
    (fault : TargetFault language scope text e) (behaviour : Method → Entropy → List Value → Reply)
    (entropy : Entropy) : ∃ own,
      execute (language.behaving behaviour) entropy scope text =
        ⟨.error own, (behaviour method entropy args).shown, entropy.next⟩ ∧
      Rejects e method.name (behaviour method entropy args).result own := by
  rw [runs behaviour entropy]
  cases returned : (behaviour method entropy args).result with
  | error own => exact ⟨own, rfl, .failed rfl⟩
  | ok returned? =>
    obtain ⟨own, refused, rejects⟩ := fault.rejects method.name returned?
    refine ⟨own, ?_, rejects⟩
    rw [show (Except.ok returned?).bind (receive language scope method.name text) =
      .error own from refused]
    rfl

end Behaviour
end Action

open StepScript.Action in
/-- A statement is refused before its call, with nothing shown, whatever the methods do, or it runs
one method once, on arguments that the method admits. Its errors fall apart accordingly: those that
are about the target or about the value returned are found once a method has run, and all others of
the statement before that. So a fault of the target, though it can be seen in advance, is never
reported in advance; it makes every call fail, but only when the method has run and has shown what
it shows. -/
theorem target_is_checked_after_the_call (language : Language) (scope : Scope) (text : Text) :
    ((∃ e, Refused language scope text e) ∨
      ∃ method ∈ language.methods, ∃ args, method.Admits args ∧
        Runs language scope text method args) ∧
    (∀ e entropy, (execute language entropy scope text).result = .error e →
      (Refused language scope text e ∧ e.ofReturn = false) ∨
      ∃ method args, Runs language scope text method args ∧
        ((method.invoke entropy args).result = .error e ∨
          e.ofReturn = true ∧ (e.ofTarget = true → TargetFault language scope text e))) ∧
    ∀ e, TargetFault language scope text e → ¬Refused language scope text e ∧
      ∀ method args, Runs language scope text method args → ∀ behaviour entropy, ∃ own,
        execute (language.behaving behaviour) entropy scope text =
          ⟨.error own, (behaviour method entropy args).shown, entropy.next⟩ ∧
        Rejects e method.name (behaviour method entropy args).result own := by
  refine ⟨refused_or_runs language scope text, fun e entropy failed => ?_, fun e fault => ?_⟩
  · rcases source_of_error failed with refused | ⟨method, args, runs, own | returned⟩
    · exact .inl ⟨refused, early_of_refused refused⟩
    · exact .inr ⟨method, args, runs, .inl own⟩
    · refine .inr ⟨method, args, runs, .inr ⟨returned.ofReturn, fun about => ?_⟩⟩
      cases returned with
      | target fault => exact fault
      | value _ other =>
        rw [other] at about
        cases about
  · exact ⟨fault.not_refused, fun _ _ runs => runs.rejects fault⟩

open StepScript.Action in
/-- The type before the variable is not registered, and the method has shown its message by the time
that this is found out. -/
theorem message_before_unregistered_type :
    let log : Method := ⟨⟨"Log".toList, [], [.string], [], some .string⟩,
      fun _ args => ⟨.ok args.head?, [⟨"called".toList, none⟩]⟩⟩
    let language : Language := ⟨[], [⟨.string [], []⟩], [log]⟩
    execute language 0 Scope.empty "Text x = Log(\"hi\");".toList =
      ⟨.error (.unsupportedType "Text".toList), [⟨"called".toList, none⟩], Entropy.next 0⟩ := by
  intro log language
  obtain ⟨_, _, faults⟩ := target_is_checked_after_the_call language Scope.empty
    "Text x = Log(\"hi\");".toList
  have target : Statement.callTarget "Text x = Log(\"hi\");".toList =
      .ok (some ⟨some "Text".toList, ['x']⟩) := by decide +kernel
  have fault : TargetFault language Scope.empty "Text x = Log(\"hi\");".toList
      (.unsupportedType "Text".toList) := .type target rfl
  have runs : Runs language Scope.empty "Text x = Log(\"hi\");".toList log
    [.string "hi".toList] := runs_of_prepareCall rfl
  obtain ⟨own, done, rejects⟩ := (faults _ fault).2 log _ runs Method.invoke 0
  rw [behaving_invoke] at done
  rw [done]
  cases rejects with
  | failed failed => cases failed
  | fault => rfl
  | nothing returned => cases returned
  | mismatch _ hidden => cases hidden

open StepScript.Action in
/-- Three words stand before the call of the message box. This can be seen in advance, and the
message is shown nevertheless. -/
theorem message_before_malformed_target :
    ¬ ∀ (language : Language) (scope : Scope) (text : Text) (entropy : Entropy) (e : Error),
      TargetFault language scope text e →
        (execute language entropy scope text).result = .error e →
          (execute language entropy scope text).shown = [] := by
  intro silent
  let language : Language := ⟨[], [], [Builtin.messageBox]⟩
  have unreadable : Statement.callTarget "a b c = Generic.MessageBox(\"hi\");".toList =
      .error (.malformed .target "a b c".toList) := by decide +kernel
  have shown := silent language Scope.empty _ 0 _ (.words unreadable) rfl
  cases shown

end StepScript
