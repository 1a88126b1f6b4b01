import StepScript.Language.Builtin
import StepScript.Proofs.CaselessLines
import StepScript.Proofs.Registration

/-! Scripts in two letter cases. Lines that differ in the case of letters outside their literals do
alike things in every scope whose strings have their quotes paired, so that scripts of such lines
run in lockstep. -/
namespace StepScript

open Quoted

/-- No method turns arguments without quotes into a string whose quotes are not paired. -/
def Language.Paired (language : Language) : Prop :=
  ∀ method ∈ language.methods, ∀ (entropy : Entropy) (args : List Value) (value : Value),
    (∀ arg ∈ args, arg.QuoteFree) → (method.call entropy args).result = .ok (some value) →
      value.Paired

theorem Value.display_quoteFree {v : Value} (free : v.QuoteFree) : '"' ∉ v.display := by
  rcases v.literal_shape with ⟨s, rfl⟩ | ⟨negative, body, _, plain, written⟩
  · exact free
  · have unquoted : '"' ∉ v.literal := by
      rw [written]
      exact not_mem_signed plain rfl (by decide)
    intro member
    refine unquoted ?_
    cases v with
    | bool | int => exact member
    | double x =>
      simp only [literal]
      split
      · exact List.mem_append_left _ member
      · exact member
    | string s => exact absurd member free

theorem Value.QuoteFree.convert {v : Value} (free : v.QuoteFree) (kind : Kind) :
    (v.convert kind).QuoteFree := by
  cases kind with
  | string => exact v.display_quoteFree free
  | bool | int | double => cases v <;> trivial

namespace Builtin

variable {entropy : Entropy} {args : List Value} {value : Value}

theorem draw_quoteFree {name : Text}
    (done : (draw name entropy args).result = .ok (some value)) : value.QuoteFree := by
  unfold draw at done
  split at done
  · split at done
    · cases done
      trivial
    · cases done
  · split at done
    · cases done
      trivial
    · cases done
  · cases done

/-- The built-in methods give no quotes that they are not given. -/
theorem methods_quoteFree {method : Method} (member : method ∈ methods)
    (free : ∀ arg ∈ args, arg.QuoteFree)
    (done : (method.invoke entropy args).result = .ok (some value)) : value.QuoteFree := by
  rcases List.mem_append.mp member with own | converts
  · simp only [List.mem_cons, List.not_mem_nil, or_false] at own
    rcases own with rfl | rfl | rfl
    · exact draw_quoteFree done
    · exact draw_quoteFree done
    · cases done
  · obtain ⟨source, _, converts⟩ := List.mem_flatMap.mp converts
    obtain ⟨target, _, rfl⟩ := List.mem_map.mp converts
    obtain ⟨arg, first, rfl⟩ := Option.map_eq_some_iff.mp (Except.ok.inj done)
    exact (free arg (List.mem_of_mem_head? first)).convert target

end Builtin

namespace Language

variable {language after : Language}

theorem registerMethods_mem {methods : List Method} {other : Method}
    (done : methods.foldlM registerMethod language = .ok after) (member : other ∈ after.methods) :
    other ∈ methods ∨ other ∈ language.methods := by
  induction methods generalizing language with
  | nil =>
    cases done
    exact .inr member
  | cons method methods ih =>
    obtain ⟨first, registered, done⟩ := Error.ok_of_bind done
    rcases ih done with later | earlier
    · exact .inl (List.mem_cons_of_mem _ later)
    · rcases List.mem_cons.mp ((registerMethod_perm registered).mem_iff.mp earlier) with rfl | old
      · exact .inl List.mem_cons_self
      · exact .inr old

theorem registerTypes_methods {kinds : List Kind} {description : Kind → Text}
    (done : kinds.foldlM (fun l kind => l.registerType (Value.zero kind) (description kind))
      language = .ok after) : after.methods = language.methods := by
  induction kinds generalizing language with
  | nil =>
    cases done
    rfl
  | cons kind kinds ih =>
    obtain ⟨first, registered, done⟩ := Error.ok_of_bind done
    exact (ih done).trans (registerType_methods registered)

theorem builtin_methods (built : Language.builtin = .ok language) {method : Method}
    (member : method ∈ language.methods) : method ∈ Builtin.methods := by
  obtain ⟨base, named, built⟩ := Error.ok_of_bind built
  obtain ⟨typed, types, built⟩ := Error.ok_of_bind built
  have empty : base.methods = [] := by
    obtain ⟨_, _, named⟩ := Error.ok_of_bind named
    cases named
    rfl
  clear named
  generalize Builtin.methods = methods at built ⊢
  rcases registerMethods_mem built member with own | inherited
  · exact own
  · rw [registerTypes_methods types, empty] at inherited
    cases inherited

theorem builtin_paired (built : Language.builtin = .ok language) : language.Paired := by
  intro method member entropy args value free done
  unfold Method.call at done
  split at done
  · exact (Builtin.methods_quoteFree (builtin_methods built member) free done).paired
  · cases done

end Language

namespace Likeness

/-- A script and the script of its folded lines. -/
def ofFold : Likeness where
  lines raw raw' := raw' = fold false raw
  errors := Error.Akin
  entropies := Eq
  bindings := Bindable

variable {language : Language} {scope : Scope}

theorem ofFold_update {result result' : Except Error Scope}
    (same : Likewise Error.Akin Eq result result')
    (bindable : ∀ after, result = .ok after → after.All Bindable) :
    Likewise Error.Akin ofFold.Actions (Action.update <$> result) (Action.update <$> result') := by
  refine (same.and_ok bindable).map ?_
  rintro after _ ⟨rfl, allowed⟩
  exact .update allowed

theorem ofFold_execute (paired : language.Paired) (bindable : scope.All Bindable)
    (entropy : Entropy) (text : Text) :
    ofFold.Performances (Action.execute language entropy scope text)
      (Action.execute language entropy scope (fold false text)) := by
  unfold Action.execute
  obtain ⟨⟨method, args⟩, called, called'⟩ | ⟨e, e', failed, failed', akin⟩ :=
    (Action.prepareCall_fold language bindable text).eq_or_error
  · rw [called, called']
    refine ⟨ofFold_update ?_ ?_, rfl, rfl⟩
    · refine (Likewise.refl _).bind ?_
      rintro returned? _ rfl
      exact Action.receive_fold language scope method.name text returned?
    · intro after done
      obtain ⟨returned?, returned, received⟩ := Error.ok_of_bind done
      refine Action.receive_keeps (show scope.All (Holding Value.Paired) from bindable) ?_ received
      rintro value rfl
      exact paired method (Action.method_of_prepareCall called) entropy args value
        (Action.prepareCall_quoteFree called) returned
  · rw [failed, failed']
    exact ⟨.error akin, rfl, rfl⟩

theorem ofFold_conditions (condition : Text) :
    ofFold.Conditions condition (fold false condition) := by
  intro scope bindable
  refine (Expr.evaluate_fold bindable .bool condition).bind ?_
  rintro value _ rfl
  exact .refl _

theorem ofFold_perform (paired : language.Paired) (bindable : scope.All Bindable)
    (entropy : Entropy) (raw : Text) :
    ofFold.Performances (Action.perform language entropy scope raw)
      (Action.perform language entropy scope (fold false raw)) := by
  unfold Action.perform
  obtain ⟨preceder, known, known'⟩ | ⟨e, e', failed, failed', akin⟩ :=
    (Line.preceder_fold raw).eq_or_error
  · rw [known, known', Line.body_fold known]
    cases preceder with
    | declare =>
      refine ⟨ofFold_update (Action.declare_fold language bindable _) ?_, rfl, rfl⟩
      exact fun _ => Action.declare_keeps (fun _ free => free.paired)
        (show scope.All (Holding Value.Paired) from bindable)
    | execute => exact ofFold_execute paired bindable entropy _
    | «while» =>
      dsimp only
      rw [Action.loopCondition_fold]
      exact ⟨.ok (.loop (ofFold_conditions _)), rfl, rfl⟩
    | «break» => exact ⟨.ok .leave, rfl, rfl⟩
  · rw [failed, failed']
    exact ⟨.error akin, rfl, rfl⟩

theorem ofFold_lawful (paired : language.Paired) : ofFold.Lawful language where
  refl := Error.Akin.refl
  shapes := by
    rintro raw _ rfl
    exact Line.sameShape_fold raw
  perform := by
    rintro entropy _ scope raw _ rfl bindable rfl
    exact ofFold_perform paired bindable entropy raw

end Likeness

/-- The failure with what its error quotes in lower case. -/
def Failure.caseless (failure : Failure) : Failure :=
  { failure with error := failure.error.caseless }

def Answer.caseless (answer : Answer) : Answer :=
  { answer with failure? := answer.failure?.map Failure.caseless }

theorem Likeness.Answers.caseless_eq {answer answer' : Answer}
    (answers : ofFold.Answers id answer answer') : answer'.caseless = answer.caseless := by
  obtain ⟨shown, visited, steps, failures, refusal⟩ := answers
  cases answer
  cases answer'
  simp only [lineAt_id, List.map_id] at shown visited steps failures refusal
  subst shown visited steps refusal
  cases failures with
  | none => rfl
  | @some failure failure' same =>
    obtain ⟨line, error⟩ := same
    rw [lineAt_id] at line
    have equal : failure'.caseless = failure.caseless := congrArg₂ Failure.mk line error
    simp only [Answer.caseless, Option.map_some, equal]

/-- The values that the host gives have their quotes paired. -/
def HostOp.Paired : HostOp → Prop
  | .add _ value | .set _ value => value.Paired
  | _ => True

instance (op : HostOp) : Decidable op.Paired :=
  match op with
  | .add _ value | .set _ value => inferInstanceAs (Decidable value.Paired)
  | .step | .stepN _ | .run _ | .restart => .isTrue trivial

theorem HostOp.Paired.binds {op : HostOp} (paired : op.Paired) : op.Binds Bindable := by
  cases op with
  | add name value => exact Bindable.new paired
  | set name value => exact fun _ bound => ⟨bound.1, paired⟩
  | step | stepN | run | restart => trivial

theorem Likeness.Scripts.blockScope {likeness : Likeness} {place : Nat → Nat}
    {script script' : Script} (scripts : likeness.Scripts place script script') :
    script'.frame?.map (·.body.scope) = script.frame?.map (·.body.scope) := by
  have frames := scripts.frame
  generalize script.frame? = frame? at frames ⊢
  generalize script'.frame? = frame'? at frames ⊢
  cases frames with
  | none => rfl
  | some frames =>
    obtain ⟨_, _, body, _⟩ := frames.body
    exact congrArg some body.scope

theorem Likeness.ofFold_scripts {language : Language} (paired : language.Paired)
    (entropy : Entropy) (lines : List Text) {ops : List HostOp} (host : ∀ op ∈ ops, op.Paired) :
    ofFold.Scripts id (ops.foldl (fun script op => op.apply script) (.new language entropy lines))
      (ops.foldl (fun script op => op.apply script)
        (.new language entropy (lines.map (fold false)))) := by
  have relaid : Relaid ofFold.lines id lines (lines.map (fold false)) :=
    .of_forall₂ (List.forall₂_map_right_iff.mpr (List.forall₂_same.mpr fun _ _ => rfl))
  exact ((ofFold_lawful paired).new relaid rfl).foldl (ofFold_lawful paired) ops
    fun op member => (host op member).binds

/-- Scripts whose lines differ in the case of letters outside their literals have the same variables
and status whatever the host does, and stand at the same line; they answer every operation alike,
but for the case of what an error quotes. The quotes of each string that the host or a method gives
are to be paired: the literal of any other string moves the literals around it. The built-in methods
give no such string. -/
theorem letter_case_is_immaterial :
    (∀ language, Language.builtin = .ok language → language.Paired) ∧
    ∀ (language : Language), language.Paired → ∀ (entropy : Entropy) (lines lines' : List Text),
      lines'.map (fold false) = lines.map (fold false) →
      ∀ ops : List HostOp, (∀ op ∈ ops, op.Paired) →
        let script := ops.foldl (fun script op => op.apply script) (.new language entropy lines)
        let script' := ops.foldl (fun script op => op.apply script) (.new language entropy lines')
        script'.main.scope = script.main.scope ∧
        script'.frame?.map (·.body.scope) = script.frame?.map (·.body.scope) ∧
        script'.status = script.status ∧ script'.currentLine? = script.currentLine? ∧
        ∀ op : HostOp, op.Paired → (op.answer script').caseless = (op.answer script).caseless := by
  constructor
  · exact fun _ => Language.builtin_paired
  · intro language methods entropy lines lines' same ops host script script'
    have lawful := Likeness.ofFold_lawful methods
    have left : Likeness.ofFold.Scripts id script _ :=
      Likeness.ofFold_scripts methods entropy lines host
    have right : Likeness.ofFold.Scripts id script' _ :=
      Likeness.ofFold_scripts methods entropy lines' host
    rw [same] at right
    refine ⟨right.main.scope.symm.trans left.main.scope,
      right.blockScope.symm.trans left.blockScope, right.status.symm.trans left.status, ?_, ?_⟩
    · have current := right.currentLine?.symm.trans left.currentLine?
      simpa [lineAt_id] using current
    · intro op paired
      have kept : script.language = language := HostOp.foldl_language ops _
      have kept' : script'.language = language := HostOp.foldl_language ops _
      have answers := (left.apply (kept ▸ lawful) op paired.binds).2.caseless_eq
      have answers' := (right.apply (kept' ▸ lawful) op paired.binds).2.caseless_eq
      exact answers'.symm.trans answers

/-- A script in capitals: it gives the variable the same string, whose literals keep their case, and
fails at the same line with the type as it is written there. -/
theorem script_in_capitals_runs_alike :
    let lines := ["declare: String s = \"Aa\" + q;", "execute: s = Echo(s + \"b\");",
      "declare: Foo x = 1;"].map String.toList
    let lines' := ["DECLARE: STRING S = \"Aa\" + Q;", "EXECUTE: S = ECHO(S + \"b\");",
      "DECLARE: FOO X = 1;"].map String.toList
    let echo : Method := ⟨⟨"Echo".toList, [], [.string], [], some .string⟩, fun _ args =>
      .give args.head?⟩
    let language : Language := ⟨[], [⟨.string [], []⟩], [echo]⟩
    let ops := [HostOp.add ['q'] (.string ['c']), .stepN 2]
    let script := ops.foldl (fun script op => op.apply script) (.new language 0 lines)
    let script' := ops.foldl (fun script op => op.apply script) (.new language 0 lines')
    script'.main.scope.locals = [(['s'], .string "Aacb".toList)] ∧
    (HostOp.step.answer script).failure? = some ⟨3, .unsupportedType "Foo".toList⟩ ∧
    (HostOp.step.answer script').caseless = (HostOp.step.answer script).caseless := by
  intro lines lines' echo language ops script script'
  have methods : language.Paired := by
    intro method member entropy args value free done
    obtain rfl := List.mem_singleton.mp member
    unfold Method.call at done
    split at done
    · exact (free value (List.mem_of_mem_head? (Except.ok.inj done))).paired
    · cases done
  have host : ∀ op ∈ ops, op.Paired := by decide +kernel
  obtain ⟨scope, _, _, _, answers⟩ := letter_case_is_immaterial.2 language methods 0 lines lines'
    (by decide +kernel) ops host
  refine ⟨?_, by decide +kernel, answers HostOp.step trivial⟩
  rw [scope]
  decide +kernel

/-- A string with one quote: its literal closes too early, and what stands between two of them comes
to lie inside a literal, where its case counts. -/
theorem lone_quote_shows_letter_case :
    let lines := ["declare: String s = q abc q;".toList]
    let lines' := ["declare: String s = q ABC q;".toList]
    let language : Language := ⟨[], [⟨.string [], []⟩], []⟩
    let ops := [HostOp.add ['q'] (.string "+ \" +".toList), .step]
    let script := ops.foldl (fun script op => op.apply script) (.new language 0 lines)
    let script' := ops.foldl (fun script op => op.apply script) (.new language 0 lines')
    lines'.map (fold false) = lines.map (fold false) ∧
    script.main.scope.locals = [(['s'], .string "+  abc  +".toList)] ∧
    script'.main.scope.locals = [(['s'], .string "+  ABC  +".toList)] := by
  decide +kernel

end StepScript
