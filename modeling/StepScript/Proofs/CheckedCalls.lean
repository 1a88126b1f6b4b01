import StepScript.Language.Builtin
import StepScript.Proofs.Parentheses

/-! Checked calls. A method runs on the arguments that it admits and on no others: where there is a
fault in them, the call fails with the first one, whatever the method does. A statement counts its
arguments, and then evaluates each for the kind of its parameter; so the call that it makes is never
refused. -/
namespace StepScript

namespace Signature

variable {signature : Signature} {name : Text} {kinds : List Kind} {args : List Value} {e : Error}

/-- The kinds of all parameters, required ones first. -/
def slots (signature : Signature) : List Kind :=
  signature.required ++ signature.optional

/-- The argument at this place, if there is one, has the kind of its parameter. -/
def KindAt (kinds : List Kind) (args : List Value) (index : Nat) : Prop :=
  ∀ arg : Value, args[index]? = some arg → kinds[index]? = some arg.kind

/-- The first argument that has another kind than its parameter. -/
structure Mismatch (kinds : List Kind) (args : List Value) (index : Nat) (expected found : Kind) :
    Prop where
  slot : kinds[index]? = some expected
  here : args[index]?.map Value.kind = some found
  other : found ≠ expected
  earlier : ∀ before < index, KindAt kinds args before

/-- So many arguments can be given. -/
structure Takes (signature : Signature) (given : Nat) : Prop where
  enough : signature.required.length ≤ given
  within : given ≤ signature.required.length + signature.optional.length

/-- The number of arguments is allowed, and each has the kind of its parameter. -/
structure Admits (signature : Signature) (args : List Value) : Prop where
  takes : signature.Takes args.length
  kinds : ∀ index, KindAt signature.slots args index

/-- The first fault of the arguments: their number, or a kind. -/
inductive Refuses (signature : Signature) (args : List Value) : Error → Prop where
  | few (short : args.length < signature.required.length) :
      Refuses signature args
        (.tooFewArguments signature.name signature.required.length args.length)
  | many (long : signature.required.length + signature.optional.length < args.length) :
      Refuses signature args (.tooManyArguments signature.name
        (signature.required.length + signature.optional.length) args.length)
  | kind {index : Nat} {expected found : Kind} (takes : signature.Takes args.length)
      (mismatch : Mismatch signature.slots args index expected found) :
      Refuses signature args (.argumentType signature.name index expected found)

section Kinds

variable {arg : Value} {kind expected found : Kind} {index start : Nat}

theorem kindAt_zero : KindAt (kind :: kinds) (arg :: args) 0 ↔ arg.kind = kind := by
  simp [KindAt, eq_comm]

theorem forall_kindAt_cons : (∀ index, KindAt (kind :: kinds) (arg :: args) index) ↔
    arg.kind = kind ∧ ∀ index, KindAt kinds args index := by
  rw [← Nat.and_forall_add_one, kindAt_zero]
  rfl

theorem mismatch_zero :
    Mismatch (kind :: kinds) (arg :: args) 0 expected found ↔
      kind = expected ∧ arg.kind = found ∧ found ≠ expected := by
  constructor
  · rintro ⟨slot, here, other, _⟩
    exact ⟨Option.some.inj slot, Option.some.inj here, other⟩
  · rintro ⟨rfl, rfl, other⟩
    exact ⟨rfl, rfl, other, fun _ less => absurd less (Nat.not_lt_zero _)⟩

theorem mismatch_succ :
    Mismatch (kind :: kinds) (arg :: args) (index + 1) expected found ↔
      arg.kind = kind ∧ Mismatch kinds args index expected found := by
  constructor
  · rintro ⟨slot, here, other, earlier⟩
    obtain ⟨first, later⟩ := Nat.forall_lt_succ_left.mp earlier
    exact ⟨kindAt_zero.mp first, slot, here, other, later⟩
  · rintro ⟨first, slot, here, other, later⟩
    exact ⟨slot, here, other, Nat.forall_lt_succ_left.mpr ⟨kindAt_zero.mpr first, later⟩⟩

theorem checkKindsFrom_ok (fit : args.length ≤ kinds.length) :
    checkKindsFrom name start kinds args = .ok () ↔ ∀ index, KindAt kinds args index := by
  fun_induction checkKindsFrom name start kinds args with
  | case1 start kinds arg args ih =>
    rw [ih (Nat.le_of_succ_le_succ fit), forall_kindAt_cons]
    simp
  | case2 start kind kinds arg args other =>
    refine iff_of_false (by simp) fun all => other (kindAt_zero.mp (all 0))
  | case3 kinds start args short =>
    refine iff_of_true rfl fun index arg here => ?_
    cases args with
    | nil => cases here
    | cons first args =>
      cases kinds with
      | nil => cases fit
      | cons kind kinds => exact (short kind kinds first args rfl rfl).elim

theorem checkKindsFrom_error :
    checkKindsFrom name start kinds args = .error e ↔ ∃ index expected found,
      Mismatch kinds args index expected found ∧
        e = .argumentType name (start + index) expected found := by
  fun_induction checkKindsFrom name start kinds args with
  | case1 start kinds arg args ih =>
    conv_rhs => rw [← Nat.or_exists_add_one]
    rw [ih]
    simp [mismatch_zero, mismatch_succ, Nat.add_assoc, Nat.add_comm 1]
  | case2 start kind kinds arg args other =>
    rw [← Nat.or_exists_add_one]
    simp [mismatch_zero, mismatch_succ, other, eq_comm (a := e)]
  | case3 kinds start args short =>
    refine iff_of_false (by simp) ?_
    rintro ⟨index, expected, found, ⟨slot, here, _, _⟩, _⟩
    cases args with
    | nil => cases here
    | cons first args =>
      cases kinds with
      | nil => cases slot
      | cons kind kinds => exact (short kind kinds first args rfl rfl).elim

end Kinds

section Arity

variable {given : Nat}

theorem checkArity_ok (takes : signature.Takes given) : signature.checkArity given = .ok () := by
  simp only [checkArity, Nat.not_lt.mpr takes.enough, Nat.not_lt.mpr takes.within, if_false]

theorem checkArity_few (short : given < signature.required.length) :
    signature.checkArity given =
      .error (.tooFewArguments signature.name signature.required.length given) :=
  if_pos short

theorem checkArity_many (long : signature.required.length + signature.optional.length < given) :
    signature.checkArity given = .error (.tooManyArguments signature.name
      (signature.required.length + signature.optional.length) given) := by
  have enough : ¬given < signature.required.length := by omega
  simp only [checkArity, enough, long, if_false, if_true]

theorem takes_or (signature : Signature) (given : Nat) :
    given < signature.required.length ∨ signature.Takes given ∨
      signature.required.length + signature.optional.length < given := by
  by_cases short : given < signature.required.length
  · exact .inl short
  · by_cases long : signature.required.length + signature.optional.length < given
    · exact .inr (.inr long)
    · exact .inr (.inl ⟨Nat.not_lt.mp short, Nat.not_lt.mp long⟩)

theorem Takes.of_checkArity (checked : signature.checkArity given = .ok ()) :
    signature.Takes given := by
  obtain short | takes | long := signature.takes_or given
  · rw [checkArity_few short] at checked
    cases checked
  · exact takes
  · rw [checkArity_many long] at checked
    cases checked

theorem Takes.fit (takes : signature.Takes given) : given ≤ signature.slots.length := by
  rw [slots, List.length_append]
  exact takes.within

end Arity

theorem check_takes (takes : signature.Takes args.length) :
    signature.check args = checkKindsFrom signature.name 0 signature.slots args := by
  rw [check, checkArity_ok takes]
  rfl

theorem check_ok : signature.check args = .ok () ↔ signature.Admits args := by
  constructor
  · intro passed
    obtain ⟨_, counted, _⟩ := Error.ok_of_bind passed
    have takes := Takes.of_checkArity counted
    rw [check_takes takes] at passed
    exact ⟨takes, (checkKindsFrom_ok takes.fit).mp passed⟩
  · rintro ⟨takes, kinds⟩
    rw [check_takes takes]
    exact (checkKindsFrom_ok takes.fit).mpr kinds

theorem check_error : signature.check args = .error e ↔ signature.Refuses args e := by
  constructor
  · intro failed
    obtain short | takes | long := signature.takes_or args.length
    · rw [check, checkArity_few short] at failed
      cases failed
      exact .few short
    · rw [check_takes takes] at failed
      obtain ⟨index, expected, found, mismatch, rfl⟩ := checkKindsFrom_error.mp failed
      rw [Nat.zero_add]
      exact .kind takes mismatch
    · rw [check, checkArity_many long] at failed
      cases failed
      exact .many long
  · intro refuses
    cases refuses with
    | few short => rw [check, checkArity_few short]; rfl
    | many long => rw [check, checkArity_many long]; rfl
    | kind takes mismatch =>
      rw [check_takes takes]
      exact checkKindsFrom_error.mpr ⟨_, _, _, mismatch, by rw [Nat.zero_add]⟩

theorem admits_or_refuses (signature : Signature) (args : List Value) :
    signature.Admits args ∨ ∃ e, signature.Refuses args e := by
  cases checked : signature.check args with
  | ok => exact .inl (check_ok.mp checked)
  | error e => exact .inr ⟨e, check_error.mp checked⟩

/-- A call with these arguments is what the method does with them, whatever that is. -/
def Reaches (signature : Signature) (args : List Value) : Prop :=
  ∀ invoke entropy, Method.call ⟨signature, invoke⟩ entropy args = invoke entropy args

/-- A call with these arguments fails like this, whatever the method does. -/
def Stops (signature : Signature) (args : List Value) (e : Error) : Prop :=
  ∀ invoke entropy, Method.call ⟨signature, invoke⟩ entropy args = .fail e

theorem Admits.reaches (admits : signature.Admits args) : signature.Reaches args := by
  intro invoke entropy
  simp only [Method.call, check_ok.mpr admits]

theorem Refuses.stops (refuses : signature.Refuses args e) : signature.Stops args e := by
  intro invoke entropy
  simp only [Method.call, check_error.mpr refuses]

/-- A method that gives something tells the two apart. -/
theorem Reaches.not_stops (reaches : signature.Reaches args) : ¬signature.Stops args e := by
  intro stops
  have both := (reaches (fun _ _ => .give none) 0).symm.trans (stops (fun _ _ => .give none) 0)
  cases both

theorem reaches_iff : signature.Reaches args ↔ signature.Admits args := by
  refine ⟨fun reaches => ?_, Admits.reaches⟩
  obtain admits | ⟨e, refuses⟩ := signature.admits_or_refuses args
  · exact admits
  · exact absurd refuses.stops reaches.not_stops

theorem stops_iff : signature.Stops args e ↔ signature.Refuses args e := by
  refine ⟨fun stops => ?_, Refuses.stops⟩
  obtain admits | ⟨other, refuses⟩ := signature.admits_or_refuses args
  · exact absurd stops admits.reaches.not_stops
  · have same : Reply.fail e = Reply.fail other :=
      (stops (fun _ _ => .give none) 0).symm.trans (refuses.stops (fun _ _ => .give none) 0)
    cases same
    exact refuses

end Signature

theorem Expr.kind_of_evaluate {kind : Kind} {raw : Text} {scope : Scope} {v : Value}
    (done : evaluate kind raw scope = .ok v) : v.kind = kind := by
  obtain ⟨_, _, done⟩ := Error.ok_of_bind done
  obtain ⟨_, _, done⟩ := Error.ok_of_bind done
  exact kind_of_evaluateText done

namespace Action

open StepScript.Signature

variable {language : Language} {scope : Scope} {text : Text} {method : Method} {raw : List Text}
  {args : List Value} {signature : Signature} {kinds : List Kind}

/-- Each text is evaluated for the kind beside it, from left to right. -/
def evaluateEach (scope : Scope) (slots : List (Kind × Text)) : Except Error (List Value) :=
  slots.mapM fun (kind, raw) => Expr.evaluate kind raw scope

theorem evaluateEach_cons (kind : Kind) (first : Text) (slots : List (Kind × Text)) :
    evaluateEach scope ((kind, first) :: slots) = Expr.evaluate kind first scope >>= fun value =>
      (value :: ·) <$> evaluateEach scope slots := by
  rw [evaluateEach, List.mapM_cons]
  rfl

/-- The statement names this method and gives these arguments. -/
structure Calls (language : Language) (text : Text) (method : Method) (raw : List Text) :
    Prop where
  named : ∃ name, Statement.methodName text = .ok name ∧ language.method name = .ok method
  given : Statement.methodArgs text = .ok raw

/-- While there is a parameter for each argument, its kind is the one used. -/
theorem evaluateArgs_eq {index : Nat} (fit : index + raw.length ≤ signature.slots.length) :
    evaluateArgs signature scope index raw =
      evaluateEach scope ((signature.slots.drop index).zip raw) := by
  induction raw generalizing index with
  | nil => rw [List.zip_nil_right]; rfl
  | cons first raw ih =>
    rw [List.length_cons] at fit
    have slot : index < signature.slots.length := by omega
    have kind : signature.paramKind? index = some signature.slots[index] :=
      List.getElem?_eq_getElem slot
    rw [evaluateArgs, ih (by omega), kind, List.drop_eq_getElem_cons slot, List.zip_cons_cons,
      evaluateEach_cons]
    rfl

theorem admits_of_evaluateEach (fit : raw.length ≤ kinds.length)
    (done : evaluateEach scope (kinds.zip raw) = .ok args) :
    args.length = raw.length ∧ ∀ index, KindAt kinds args index := by
  induction kinds generalizing raw args with
  | nil =>
    cases List.eq_nil_of_length_eq_zero (Nat.le_zero.mp fit)
    cases done
    exact ⟨rfl, fun _ _ here => nomatch here⟩
  | cons kind kinds ih =>
    cases raw with
    | nil =>
      cases done
      exact ⟨rfl, fun _ _ here => nomatch here⟩
    | cons first raw =>
      rw [List.zip_cons_cons, evaluateEach_cons] at done
      obtain ⟨value, worth, done⟩ := Error.ok_of_bind done
      obtain ⟨more, rest, rfl⟩ := Error.ok_of_map done
      obtain ⟨many, all⟩ := ih (Nat.le_of_succ_le_succ fit) rest
      exact ⟨congrArg (· + 1) many, forall_kindAt_cons.mpr ⟨Expr.kind_of_evaluate worth, all⟩⟩

theorem Calls.prepareCall (calls : Calls language text method raw) (scope : Scope) :
    prepareCall language scope text = method.checkArity raw.length >>= fun _ =>
      (method, ·) <$> evaluateArgs method.toSignature scope 0 raw := by
  obtain ⟨⟨name, named, found⟩, given⟩ := calls
  rw [Action.prepareCall, named]
  change (language.method name >>= _) = _
  rw [found]
  change (Statement.methodArgs text >>= _) = _
  rw [given]
  rfl

/-- An allowed number of arguments leaves only their evaluation, each for its own kind. -/
theorem Calls.evaluated (calls : Calls language text method raw) (scope : Scope)
    (takes : method.Takes raw.length) : Action.prepareCall language scope text =
      (method, ·) <$> evaluateEach scope (method.slots.zip raw) := by
  rw [calls.prepareCall, checkArity_ok takes, evaluateArgs_eq (by simpa using takes.fit)]
  rfl

theorem calls_of_prepareCall
    (prepared : Action.prepareCall language scope text = .ok (method, args)) :
    ∃ raw, Calls language text method raw ∧ method.Takes raw.length := by
  obtain ⟨name, named, prepared⟩ := Error.ok_of_bind prepared
  obtain ⟨found, registered, prepared⟩ := Error.ok_of_bind prepared
  obtain ⟨raw, given, prepared⟩ := Error.ok_of_bind prepared
  obtain ⟨_, counted, prepared⟩ := Error.ok_of_bind prepared
  obtain ⟨_, _, same⟩ := Error.ok_of_bind prepared
  cases same
  exact ⟨raw, ⟨⟨name, named, registered⟩, given⟩, Takes.of_checkArity counted⟩

theorem admits_of_prepareCall
    (prepared : Action.prepareCall language scope text = .ok (method, args)) :
    method.Admits args := by
  obtain ⟨raw, calls, takes⟩ := calls_of_prepareCall prepared
  rw [calls.evaluated scope takes] at prepared
  obtain ⟨_, done, same⟩ := Error.ok_of_map prepared
  cases same
  obtain ⟨many, kinds⟩ := admits_of_evaluateEach takes.fit done
  exact ⟨many ▸ takes, kinds⟩

theorem execute_of_prepareCall
    (prepared : Action.prepareCall language scope text = .ok (method, args)) (entropy : Entropy) :
    execute language entropy scope text =
      ⟨.update <$> (method.invoke entropy args).result.bind
          (receive language scope method.name text),
        (method.invoke entropy args).shown, entropy.next⟩ := by
  have reaches : method.call entropy args = method.invoke entropy args :=
    (admits_of_prepareCall prepared).reaches method.invoke entropy
  rw [execute, prepared]
  simp only [reaches]

/-- Whatever the arguments are, a call with a number of them that is not allowed does nothing. -/
theorem Calls.refused {e : Error} (calls : Calls language text method raw)
    (counted : method.checkArity raw.length = .error e) (scope : Scope) (entropy : Entropy) :
    execute language entropy scope text = ⟨.error e, [], entropy⟩ := by
  rw [execute, calls.prepareCall, counted]
  rfl

end Action

open StepScript.Action in
/-- A call is what the method does if the number of its arguments is allowed and each has the kind
of its parameter; else it fails with the first fault, whatever the method does. The method of a
statement admits the arguments that are prepared for it, so the statement gives what the method
gives for them. Where their number is allowed, they are prepared by evaluating each for the kind of
its own parameter; with another number the statement fails and evaluates none of them. -/
theorem methods_run_on_checked_arguments :
    (∀ (signature : Signature) (args : List Value),
      (signature.Reaches args ↔ signature.Admits args) ∧
      (∀ e, signature.Stops args e ↔ signature.Refuses args e) ∧
      (signature.Admits args ∨ ∃ e, signature.Refuses args e)) ∧
    ∀ (language : Language) (scope : Scope) (text : Text),
      (∀ method args, prepareCall language scope text = .ok (method, args) →
        method.Admits args ∧ (∃ raw, Calls language text method raw) ∧
        ∀ entropy, execute language entropy scope text =
          ⟨.update <$> (method.invoke entropy args).result.bind
              (receive language scope method.name text),
            (method.invoke entropy args).shown, entropy.next⟩) ∧
      ∀ method raw, Calls language text method raw →
        (method.Takes raw.length → prepareCall language scope text =
          (method, ·) <$> evaluateEach scope (method.slots.zip raw)) ∧
        ∀ entropy,
          (raw.length < method.required.length → execute language entropy scope text =
            ⟨.error (.tooFewArguments method.name method.required.length raw.length), [],
              entropy⟩) ∧
          (method.required.length + method.optional.length < raw.length →
            execute language entropy scope text =
              ⟨.error (.tooManyArguments method.name
                (method.required.length + method.optional.length) raw.length), [], entropy⟩) := by
  constructor
  · intro signature args
    exact ⟨Signature.reaches_iff, fun e => Signature.stops_iff, signature.admits_or_refuses args⟩
  · intro language scope text
    constructor
    · intro method args prepared
      obtain ⟨raw, calls, _⟩ := calls_of_prepareCall prepared
      exact ⟨admits_of_prepareCall prepared, ⟨raw, calls⟩, execute_of_prepareCall prepared⟩
    · intro method raw calls
      refine ⟨calls.evaluated scope, fun entropy => ⟨fun short => ?_, fun long => ?_⟩⟩
      · exact calls.refused (Signature.checkArity_few short) scope entropy
      · exact calls.refused (Signature.checkArity_many long) scope entropy

open StepScript.Action in
/-- A message that is made from two literals is shown. A number is not a message, and of three
arguments that mean nothing it is their number that is reported. -/
theorem message_box_is_checked :
    let language : Language := ⟨[], [], [Builtin.messageBox]⟩
    let joined := "generic.messagebox(\"a\" + \"b\");".toList
    let surplus := "Generic.MessageBox(?, ?, ?);".toList
    (execute language 0 Scope.empty joined).shown = [⟨"ab".toList, none⟩] ∧
      Builtin.messageBox.Stops [.int 1]
        (.argumentType "Generic.MessageBox".toList 0 .string .int) ∧
      execute language 0 Scope.empty surplus =
        ⟨.error (.tooManyArguments "Generic.MessageBox".toList 2 3), [], 0⟩ := by
  intro language joined surplus
  obtain ⟨calls, statements⟩ := methods_run_on_checked_arguments
  have one : Calls language joined Builtin.messageBox ["\"a\" + \"b\"".toList] :=
    ⟨⟨_, rfl, rfl⟩, by decide +kernel⟩
  have three : Calls language surplus Builtin.messageBox [['?'], ['?'], ['?']] :=
    ⟨⟨_, rfl, rfl⟩, by decide +kernel⟩
  have worth : evaluateEach Scope.empty [(.string, "\"a\" + \"b\"".toList)] =
      .ok [.string "ab".toList] := by decide +kernel
  refine ⟨?_, ?_, ?_⟩
  · obtain ⟨prepares, prepared⟩ := statements language Scope.empty joined
    have evaluated := (prepared _ _ one).1 ⟨by decide, by decide⟩
    rw [show Builtin.messageBox.slots.zip _ = [(.string, "\"a\" + \"b\"".toList)] from rfl,
      worth] at evaluated
    obtain ⟨_, _, executes⟩ := prepares _ _ evaluated
    rw [executes]
    rfl
  · obtain ⟨_, stops, _⟩ := calls Builtin.messageBox.toSignature [.int 1]
    exact (stops _).mpr (.kind ⟨by decide, by decide⟩
      ⟨rfl, rfl, by decide, fun _ less => absurd less (Nat.not_lt_zero _)⟩)
  · exact (((statements language Scope.empty surplus).2 _ _ three).2 0).2 (by decide)

end StepScript
