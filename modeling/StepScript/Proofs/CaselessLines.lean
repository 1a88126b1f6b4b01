import StepScript.Proofs.Caseless

/-! Lines in two letter cases. A line and its folded form have the same parts, up to the case of
names and keywords, which nothing that looks them up sees. They ask for the same, and where the
quotes of every string are paired they leave them so. -/
namespace StepScript

open Quoted

section Names

@[simp] theorem isName_lower (t : Text) : isName t.lower = isName t := by
  simp [isName, Text.lower, List.all_map, Function.comp_def]

theorem checkName_lower (t : Text) : Likewise Error.Akin Eq (checkName t) (checkName t.lower) := by
  rw [checkName, checkName, isName_lower]
  split
  · exact .ok rfl
  · exact .error (by simp)

namespace Language

theorem type_lower (language : Language) (name : Text) :
    Likewise Error.Akin Eq (language.type name) (language.type name.lower) := by
  simp only [type, findType?, Text.trim_lower, Text.sameWord_lower]
  split
  · exact .ok rfl
  · exact .error (by simp)

theorem method_lower (language : Language) (name : Text) :
    Likewise Error.Akin Eq (language.method name) (language.method name.lower) := by
  simp only [method, findMethod?, Text.trim_lower, Text.sameWord_lower]
  split
  · exact .ok rfl
  · exact .error (by simp)

end Language

namespace Scope

variable (scope : Scope) (value : Value)

@[simp] theorem key_lower (name : Text) : key name.lower = key name := by
  simp [key]

@[simp] theorem get?_lower (name : Text) : scope.get? name.lower = scope.get? name := by
  simp [get?]

theorem assign_lower (name : Text) :
    Likewise Error.Akin Eq (scope.assign name value) (scope.assign name.lower value) := by
  have unknown : (Error.unknownVariable name.trim).Akin (.unknownVariable name.lower.trim) := by
    simp
  simp only [assign, setInteractive, checkKind, key_lower]
  split
  · split
    · exact .error unknown
    · exact .refl _
  · exact .refl _
  · exact .error unknown

theorem declareLocal_lower (name : Text) :
    Likewise Error.Akin Eq (scope.declareLocal name value)
      (scope.declareLocal name.lower value) := by
  simp only [declareLocal, Text.trim_lower, key_lower]
  refine (checkName_lower name.trim).bind ?_
  rintro _ _ rfl
  exact .ok rfl

end Scope

theorem Preceder.ofText_lower (t : Text) :
    Likewise Error.Akin Eq (ofText t) (ofText t.lower) := by
  simp only [ofText, Text.trim_lower, Text.sameWord_lower]
  split
  · exact .ok rfl
  · exact .error (by simp)

end Names

section Ends

theorem Text.splitFirst_eq {sep : Char} {t before rest : Text}
    (cut : splitFirst sep t = some (before, rest)) : t = before ++ sep :: rest := by
  induction t generalizing before with
  | nil => cases cut
  | cons c t ih =>
    rw [splitFirst] at cut
    split at cut
    · rename_i found
      cases cut
      rw [beq_iff_eq.mp found]
      rfl
    · obtain ⟨⟨front, behind⟩, later, same⟩ := Option.map_eq_some_iff.mp cut
      cases same
      rw [ih later]
      rfl

theorem Text.eq_nil_of_width {t : Text} (none : t.width = 0) : t = [] := by
  cases t with
  | nil => rfl
  | cons c t =>
    have positive := c.utf8Size_pos
    rw [width] at none
    omega

/-- A group closes at a parenthesis. -/
theorem Group.closes_of_mem_spansFrom {pos : Nat} {inside : Bool} {stack : List Nat} {t : Text}
    {found : List Span} {span : Span} (spans : spansFrom pos inside stack t = some found)
    (member : span ∈ found) :
    ∃ before rest : Text, t = before ++ ')' :: rest ∧ span.closing = pos + before.width := by
  induction t generalizing pos inside stack found with
  | nil =>
    rw [spansFrom] at spans
    split at spans
    · cases spans
      cases member
    · cases spans
  | cons c t ih =>
    have later : ∀ {inside stack found}, spansFrom (pos + c.utf8Size) inside stack t = some found →
        span ∈ found → ∃ before rest : Text, c :: t = before ++ ')' :: rest ∧
          span.closing = pos + before.width := by
      intro inside stack found spans member
      obtain ⟨before, rest, rfl, closing⟩ := ih spans member
      exact ⟨c :: before, rest, rfl, by rw [closing, Text.width]; omega⟩
    simp only [spansFrom] at spans
    split at spans
    · exact later spans member
    · split at spans
      · exact later spans member
      · split at spans
        · rename_i closes
          split at spans
          · cases spans
          · obtain ⟨more, rest, rfl⟩ := Option.map_eq_some_iff.mp spans
            rcases List.mem_cons.mp member with rfl | member
            · exact ⟨[], t, by rw [beq_iff_eq.mp closes]; rfl, rfl⟩
            · exact later rest member
        · exact later spans member

/-- A group that closes at the last byte of a text closes with its last character. -/
theorem Group.ends_of_spans {t : Text} {found : List Span} {span : Span}
    (spanned : spans t = .ok found) (member : span ∈ found) (ends : span.closing + 1 = t.width) :
    ∃ before, t = before ++ [')'] := by
  unfold spans at spanned
  split at spanned
  · rename_i groups closed
    cases spanned
    obtain ⟨before, rest, rfl, closing⟩ :=
      closes_of_mem_spansFrom closed ((arrange_perm _ _).mem_iff.mp member)
    have size : ')'.utf8Size = 1 := rfl
    rw [Text.width_append, Text.width, size] at ends
    have empty : rest = [] := Text.eq_nil_of_width (by omega)
    exact ⟨before, by rw [empty]⟩
  · cases spanned

end Ends

namespace Statement

theorem body_fold (text : Text) :
    Likewise Error.Akin (fun body body' => body' = fold false body) (body text)
      (body (fold false text)) := by
  rw [body, body, trim_fold, dropSuffix?_fold (by decide)]
  cases Text.dropSuffix? ';' text.trim with
  | none => exact .error rfl
  | some t => exact .ok (trim_fold false t)

theorem splitAssignment_fold (body : Text) :
    Likewise Error.Akin
      (fun sides? sides'? => sides'? = sides?.map (Prod.map (fold false) (fold false)))
      (splitAssignment body) (splitAssignment (fold false body)) := by
  have sides := splitEquals_fold false 0 none false body
  rw [Option.map_none] at sides
  rw [splitAssignment, splitAssignment, check_fold, sides]
  refine (Likewise.refl _).bind ?_
  rintro _ _ rfl
  refine .ok ?_
  cases splitEquals false 0 none body with
  | none => rfl
  | some parts => simp

theorem declaration_fold (text : Text) :
    Likewise Error.Akin
      (fun parts parts' => parts' = parts.map (fold false) (Prod.map (fold false) (fold false)))
      (declaration text) (declaration (fold false text)) := by
  refine (body_fold text).bind ?_
  rintro body _ rfl
  refine (splitAssignment_fold body).bind ?_
  rintro sides? _ rfl
  cases sides? with
  | none => exact .error (by simp)
  | some sides => exact .ok rfl

/-- The target in lower case. -/
def Target.lower (target : Target) : Target :=
  ⟨target.type?.map Text.lower, target.name.lower⟩

theorem Target.name_lower {target target' : Target} (same : target'.lower = target.lower) :
    target'.name.lower = target.name.lower :=
  congrArg Target.name same

theorem Target.lower_lower (target : Target) : target.lower.lower = target.lower := by
  simp [Target.lower, Function.comp_def]

theorem Target.ofText_lower (left : Text) :
    Likewise Error.Akin (fun target target' => target'.lower = target.lower) (ofText left)
      (ofText left.lower) := by
  rw [ofText, ofText, Text.words_lower]
  rcases left.words with _ | ⟨first, _ | ⟨second, _ | ⟨third, more⟩⟩⟩
  · exact .error (by simp)
  · exact .ok (Target.lower_lower ⟨none, first⟩)
  · exact .ok (Target.lower_lower ⟨some first, second⟩)
  · exact .error (by simp)

theorem Target.ofText_fold (left : Text) :
    Likewise Error.Akin (fun target target' => target'.lower = target.lower) (ofText left)
      (ofText (fold false left)) :=
  .of_form Target.ofText_lower (fun _ _ _ left right => right.symm.trans left)
    (lower_fold false left)

theorem declaredTarget_fold (text : Text) :
    Likewise Error.Akin (fun target target' => target'.lower = target.lower) (declaredTarget text)
      (declaredTarget (fold false text)) := by
  refine (declaration_fold text).bind ?_
  rintro ⟨body, left, right⟩ _ rfl
  exact Target.ofText_fold left

theorem declaredExpr_fold (text : Text) :
    Likewise Error.Akin (fun expr expr' => expr' = fold false expr) (declaredExpr text)
      (declaredExpr (fold false text)) := by
  refine (declaration_fold text).bind ?_
  rintro ⟨body, left, right⟩ _ rfl
  simp only [Prod.map, isEmpty_fold]
  split
  · exact .error (by simp)
  · exact .ok rfl

theorem callTarget_fold (text : Text) :
    Likewise Error.Akin (Option.Rel fun target target' => target'.lower = target.lower)
      (callTarget text) (callTarget (fold false text)) := by
  refine (body_fold text).bind ?_
  rintro body _ rfl
  refine (splitAssignment_fold body).bind ?_
  rintro sides? _ rfl
  cases sides? with
  | none => exact .ok .none
  | some sides => exact (Target.ofText_fold sides.1).map fun _ _ same => .some same

/-- The text itself, if it is a call and its first parenthesis closes at its end. -/
def closedCall (call : Text) : Except Error Text := do
  Quoted.check call
  match ← Group.spans call with
  | [] => .error (.malformed .noCall call)
  | first :: _ =>
    if first.closing + 1 = call.width then .ok call else .error (.malformed .textAfterCall call)

theorem closedCall_fold (call : Text) :
    Likewise Error.Akin (fun call call' => call' = fold false call) (closedCall call)
      (closedCall (fold false call)) := by
  have width : (fold false call).width = call.width := by
    rw [← Text.width_lower, lower_fold, Text.width_lower]
  rw [closedCall, closedCall, check_fold]
  refine (Likewise.refl _).bind ?_
  rintro _ _ rfl
  refine (Group.spans_fold call).bind ?_
  rintro spans _ rfl
  cases spans with
  | nil => exact .error (by simp)
  | cons first more =>
    simp only [width]
    split
    · exact .ok rfl
    · exact .error (by simp)

/-- A call has its quotes paired and ends with a parenthesis. -/
theorem closedCall_ends {call found : Text} (closed : closedCall call = .ok found) :
    Text.Paired found ∧ ∃ before, found = before ++ [')'] := by
  obtain ⟨_, paired, closed⟩ := Error.ok_of_bind closed
  obtain ⟨spans, spanned, closed⟩ := Error.ok_of_bind closed
  split at closed
  · cases closed
  split at closed
  · rename_i first more ends
    cases closed
    exact ⟨check_ok.mp paired, Group.ends_of_spans spanned List.mem_cons_self ends⟩
  · cases closed

theorem call_fold (text : Text) :
    Likewise Error.Akin (fun call call' => call' = fold false call) (call text)
      (call (fold false text)) := by
  refine (body_fold text).bind ?_
  rintro body _ rfl
  refine (splitAssignment_fold body).bind ?_
  rintro sides? _ rfl
  cases sides? with
  | none => exact closedCall_fold body
  | some sides => exact closedCall_fold sides.2

theorem call_ends {text found : Text} (called : call text = .ok found) :
    Text.Paired found ∧ ∃ before, found = before ++ [')'] := by
  obtain ⟨body, _, called⟩ := Error.ok_of_bind called
  obtain ⟨sides?, _, called⟩ := Error.ok_of_bind called
  cases sides? with
  | none => exact closedCall_ends called
  | some sides => exact closedCall_ends called

theorem methodName_fold (text : Text) :
    Likewise Error.Akin (fun name name' => name' = fold false name) (methodName text)
      (methodName (fold false text)) := by
  refine (call_fold text).bind ?_
  rintro call _ rfl
  simp only [splitFirst_fold (by decide : '('.isAlpha = false) (by decide : '(' ≠ '"')]
  cases call.splitFirst '(' with
  | none => exact .error (by simp)
  | some parts =>
    simp only [Option.map_some, trim_fold, isEmpty_fold]
    split
    · exact .error (by simp)
    · exact .ok rfl

/-- The arguments start inside a literal only if they cannot be divided. -/
theorem argumentText_fold {call before : Text} (paired : call.Paired)
    (ends : call = before ++ [')']) :
    ∃ inside, argumentText (fold false call) = fold inside (argumentText call) ∧
      (Quoted.check (argumentText call) = .ok () → inside = false) := by
  unfold argumentText
  rw [splitFirst_fold (by decide) (by decide)]
  cases cut : call.splitFirst '(' with
  | none => exact ⟨false, rfl, fun _ => rfl⟩
  | some parts =>
    obtain ⟨name, rest⟩ := parts
    refine ⟨after false name, by simp, ?_⟩
    intro checked
    have whole := Text.splitFirst_eq cut
    cases rest using List.reverseRecOn with
    | nil =>
      rw [whole] at ends
      simpa using congrArg List.getLast? ends
    | append_singleton inner last =>
      have closing : last = ')' := by
        rw [whole, ← List.cons_append, ← List.append_assoc] at ends
        simpa only [List.getLast?_concat, Option.some.injEq] using congrArg List.getLast? ends
      subst closing
      dsimp only at checked
      rw [List.dropLast_concat, check_ok, after_eq_iff_even] at checked
      rw [Text.Paired, whole, after_append, after_cons, after_append,
        (after_eq_iff_even _ inner).mpr checked] at paired
      simpa [step] using paired

theorem methodArgs_fold (text : Text) :
    Likewise Error.Akin (fun args args' => args' = args.map (fold false)) (methodArgs text)
      (methodArgs (fold false text)) := by
  refine ((call_fold text).and_ok fun _ => call_ends).bind ?_
  rintro call _ ⟨rfl, paired, before, ends⟩
  -- The first parenthesis may lie in a literal before the name. The arguments are then cut off in
  -- the middle of that literal, and their quotes do not pair in either letter case.
  obtain ⟨inside, arguments, outside⟩ := argumentText_fold paired ends
  simp only [arguments, trim_fold, isEmpty_fold, check_fold]
  split
  · exact .ok rfl
  cases checked : Quoted.check (argumentText call) with
  | error e => exact .error rfl
  | ok _ =>
    obtain rfl := outside checked
    have divided : (Group.splitTop ',' false 0 (fold false (argumentText call))).map Text.trim =
        ((Group.splitTop ',' false 0 (argumentText call)).map Text.trim).map (fold false) := by
      rw [Group.splitTop_fold_outside (by decide) (by decide), List.map_map, List.map_map]
      exact List.map_congr_left fun piece _ => trim_fold false piece
    have blank : ∀ args : List Text, (args.map (fold false)).any List.isEmpty =
        args.any List.isEmpty := by
      intro args
      simp [List.any_map, Function.comp_def]
    change Likewise Error.Akin _ (if _ then _ else _) (if _ then _ else _)
    rw [divided, blank]
    split
    · exact .error (by simp)
    · exact .ok rfl

end Statement

namespace Line

theorem sameShape_fold (raw : Text) : SameShape raw (fold false raw) := by
  intro text shape
  rw [clean_fold]
  simp only [List.mem_cons, List.not_mem_nil, or_false] at shape
  rcases shape with rfl | rfl | rfl
  · rw [← List.isEmpty_iff, isEmpty_fold, List.isEmpty_iff]
  · exact fold_eq_singleton (by decide)
  · exact fold_eq_singleton (by decide)

theorem preceder_fold (raw : Text) :
    Likewise Error.Akin Eq (preceder raw) (preceder (fold false raw)) := by
  have word : ∀ text, Likewise Error.Akin Eq (Preceder.ofText text)
      (Preceder.ofText (fold false text)) := fun text =>
    .of_form_eq Preceder.ofText_lower (lower_fold false text)
  simp only [preceder, clean_fold,
    splitFirst_fold (by decide : ':'.isAlpha = false) (by decide : ':' ≠ '"')]
  cases Text.splitFirst ':' (clean raw) with
  | none => exact word _
  | some parts => exact word parts.1

/-- A keyword holds no quote, so that what follows it stands outside the literals. -/
theorem after_keyword {word : Text} {preceder : Preceder}
    (known : Preceder.ofText word = .ok preceder) : after false word = false := by
  unfold Preceder.ofText at known
  split at known
  · rename_i p found
    have same := List.find?_some found
    rw [Text.sameWord, beq_iff_eq] at same
    have free : '"' ∉ word.trim := by
      refine Expr.quoteFree_of_lower same.symm ?_
      cases p <;> decide
    rw [← after_trim, after_of_free free]
  · cases known

theorem body_fold {raw : Text} {preceder : Preceder} (known : Line.preceder raw = .ok preceder) :
    body (fold false raw) = fold false (body raw) := by
  simp only [Line.preceder] at known
  simp only [body, clean_fold,
    splitFirst_fold (by decide : ':'.isAlpha = false) (by decide : ':' ≠ '"')]
  cases cut : Text.splitFirst ':' (clean raw) with
  | none => rfl
  | some parts =>
    rw [cut] at known
    simp only [Option.map_some, after_keyword known, trim_fold]

end Line

namespace Action

variable {language : Language} {scope after : Scope} {target target' : Statement.Target}
  {value : Value}

theorem writtenKind_akin (language : Language) (targets : target'.lower = target.lower) :
    Likewise Error.Akin Eq (writtenKind language target.type?)
      (writtenKind language target'.type?) := by
  have normal : ∀ type?, Likewise Error.Akin Eq (writtenKind language type?)
      (writtenKind language (type?.map Text.lower)) := by
    intro type?
    cases type? with
    | none => exact .ok rfl
    | some name => exact (language.type_lower name).map fun _ _ same => by rw [same]
  exact .of_form_eq normal (congrArg Statement.Target.type? targets)

theorem checkWritten_akin (targets : target'.lower = target.lower) (existing : Kind)
    (written? : Option Kind) :
    Likewise Error.Akin Eq (checkWritten target.name existing written?)
      (checkWritten target'.name existing written?) := by
  have names := Statement.Target.name_lower targets
  cases written? with
  | none => exact .ok rfl
  | some written =>
    rw [checkWritten, checkWritten]
    split
    · exact .ok rfl
    · exact .error (by simp [names])

theorem get?_akin (targets : target'.lower = target.lower) (scope : Scope) :
    scope.get? target'.name = scope.get? target.name := by
  rw [← scope.get?_lower, Statement.Target.name_lower targets, scope.get?_lower]

theorem assign_akin (targets : target'.lower = target.lower) (scope : Scope) (value : Value) :
    Likewise Error.Akin Eq (scope.assign target.name value) (scope.assign target'.name value) :=
  .of_form_eq (scope.assign_lower value) (Statement.Target.name_lower targets)

theorem declareLocal_akin (targets : target'.lower = target.lower) (scope : Scope) (value : Value) :
    Likewise Error.Akin Eq (scope.declareLocal target.name value)
      (scope.declareLocal target'.name value) :=
  .of_form_eq (scope.declareLocal_lower value) (Statement.Target.name_lower targets)

theorem declare_fold (language : Language) (bindable : scope.All Bindable) (text : Text) :
    Likewise Error.Akin Eq (declare language scope text)
      (declare language scope (fold false text)) := by
  refine (Statement.declaredTarget_fold text).bind ?_
  intro target target' targets
  refine (writtenKind_akin language targets).bind ?_
  rintro written? _ rfl
  refine (Statement.declaredExpr_fold text).bind ?_
  rintro expr _ rfl
  rw [get?_akin targets]
  cases scope.get? target.name with
  | some old =>
    refine (checkWritten_akin targets old.kind written?).bind ?_
    rintro _ _ rfl
    refine (Expr.evaluate_fold bindable old.kind expr).bind ?_
    rintro value _ rfl
    exact assign_akin targets scope value
  | none =>
    have names := Statement.Target.name_lower targets
    cases written? with
    | none => exact .error (by simp [names])
    | some kind =>
      refine (Likewise.of_form_eq checkName_lower names).bind ?_
      rintro _ _ rfl
      refine (Expr.evaluate_fold bindable kind expr).bind ?_
      rintro value _ rfl
      exact declareLocal_akin targets scope value

theorem evaluateArgs_fold (bindable : scope.All Bindable) (signature : Signature) (index : Nat)
    (args : List Text) :
    Likewise Error.Akin Eq (evaluateArgs signature scope index args)
      (evaluateArgs signature scope index (args.map (fold false))) := by
  induction args generalizing index with
  | nil => exact .ok rfl
  | cons raw more ih =>
    refine (Expr.evaluate_fold bindable _ raw).bind ?_
    rintro value _ rfl
    refine (ih (index + 1)).bind ?_
    rintro values _ rfl
    exact .ok rfl

theorem evaluateArgs_quoteFree {signature : Signature} {index : Nat} {args : List Text}
    {values : List Value} (done : evaluateArgs signature scope index args = .ok values) :
    ∀ value ∈ values, value.QuoteFree := by
  induction args generalizing index values with
  | nil =>
    cases done
    exact List.forall_mem_nil _
  | cons raw more ih =>
    obtain ⟨value, evaluated, done⟩ := Error.ok_of_bind done
    obtain ⟨rest, evaluatedRest, done⟩ := Error.ok_of_bind done
    cases done
    exact List.forall_mem_cons.mpr ⟨Expr.evaluate_quoteFree evaluated, ih evaluatedRest⟩

theorem prepareCall_fold (language : Language) (bindable : scope.All Bindable) (text : Text) :
    Likewise Error.Akin Eq (prepareCall language scope text)
      (prepareCall language scope (fold false text)) := by
  refine (Statement.methodName_fold text).bind ?_
  rintro name _ rfl
  refine (Likewise.of_form_eq language.method_lower (lower_fold false name)).bind ?_
  rintro method _ rfl
  refine (Statement.methodArgs_fold text).bind ?_
  rintro raw _ rfl
  rw [List.length_map]
  refine (Likewise.refl _).bind ?_
  rintro _ _ rfl
  refine (evaluateArgs_fold bindable method.toSignature 0 raw).bind ?_
  rintro args _ rfl
  exact .ok rfl

theorem prepareCall_quoteFree {text : Text} {method : Method} {args : List Value}
    (prepared : prepareCall language scope text = .ok (method, args)) :
    ∀ arg ∈ args, arg.QuoteFree := by
  obtain ⟨_, _, prepared⟩ := Error.ok_of_bind prepared
  obtain ⟨_, _, prepared⟩ := Error.ok_of_bind prepared
  obtain ⟨_, _, prepared⟩ := Error.ok_of_bind prepared
  obtain ⟨_, _, prepared⟩ := Error.ok_of_bind prepared
  obtain ⟨values, evaluated, prepared⟩ := Error.ok_of_bind prepared
  cases prepared
  exact evaluateArgs_quoteFree evaluated

theorem store_akin (language : Language) (scope : Scope) (method : Text)
    (targets : target'.lower = target.lower) (value : Value) :
    Likewise Error.Akin Eq (store language scope method target value)
      (store language scope method target' value) := by
  have names := Statement.Target.name_lower targets
  refine (writtenKind_akin language targets).bind ?_
  rintro written? _ rfl
  rw [get?_akin targets]
  cases scope.get? target.name with
  | some old =>
    refine (checkWritten_akin targets old.kind written?).bind ?_
    rintro _ _ rfl
    split
    · exact assign_akin targets scope value
    · exact .error (by simp [names])
  | none =>
    cases written? with
    | none => exact declareLocal_akin targets scope value
    | some written =>
      dsimp only
      split
      · exact declareLocal_akin targets scope value
      · exact .error (by simp [names])

theorem receive_fold (language : Language) (scope : Scope) (method text : Text)
    (returned? : Option Value) :
    Likewise Error.Akin Eq (receive language scope method text returned?)
      (receive language scope method (fold false text) returned?) := by
  refine (Statement.callTarget_fold text).bind ?_
  intro target? target'? both
  cases both with
  | none => exact .ok rfl
  | some targets =>
    cases returned? with
    | none => exact .error rfl
    | some value => exact store_akin language scope method targets value

theorem loopCondition_fold (text : Text) :
    loopCondition (fold false text) = fold false (loopCondition text) := by
  rw [loopCondition, dropSuffix?_fold (by decide), loopCondition]
  cases Text.dropSuffix? ';' text with
  | none => exact trim_fold false text
  | some condition => exact trim_fold false condition

section Keeping

variable {sort : Value → Prop}

/-- A declared variable has a value without quotes. -/
theorem declare_keeps {text : Text} (allows : ∀ v : Value, v.QuoteFree → sort v)
    (all : scope.All (Holding sort)) (done : declare language scope text = .ok after) :
    after.All (Holding sort) := by
  obtain ⟨target, _, done⟩ := Error.ok_of_bind done
  obtain ⟨written?, _, done⟩ := Error.ok_of_bind done
  obtain ⟨expr, _, done⟩ := Error.ok_of_bind done
  split at done
  · obtain ⟨_, _, done⟩ := Error.ok_of_bind done
    obtain ⟨value, evaluated, done⟩ := Error.ok_of_bind done
    have sorted := allows value (Expr.evaluate_quoteFree evaluated)
    exact all.assign (fun _ bound => ⟨bound.1, sorted⟩) done
  · split at done
    · cases done
    · obtain ⟨_, _, done⟩ := Error.ok_of_bind done
      obtain ⟨value, evaluated, done⟩ := Error.ok_of_bind done
      have sorted := allows value (Expr.evaluate_quoteFree evaluated)
      exact all.declareLocal (Holding.new sorted) done

theorem store_keeps {method : Text} (all : scope.All (Holding sort)) (sorted : sort value)
    (done : store language scope method target value = .ok after) : after.All (Holding sort) := by
  obtain ⟨written?, _, done⟩ := Error.ok_of_bind done
  split at done
  · obtain ⟨_, _, done⟩ := Error.ok_of_bind done
    split at done
    · exact all.assign (fun _ bound => ⟨bound.1, sorted⟩) done
    · cases done
  · split at done
    · exact all.declareLocal (Holding.new sorted) done
    · split at done
      · exact all.declareLocal (Holding.new sorted) done
      · cases done

theorem receive_keeps {method text : Text} {returned? : Option Value}
    (all : scope.All (Holding sort)) (sorted : ∀ value ∈ returned?, sort value)
    (done : receive language scope method text returned? = .ok after) :
    after.All (Holding sort) := by
  obtain ⟨target?, _, done⟩ := Error.ok_of_bind done
  split at done
  · cases done
    exact all
  · split at done
    · cases done
    · exact store_keeps all (sorted _ rfl) done

end Keeping

end Action

end StepScript
