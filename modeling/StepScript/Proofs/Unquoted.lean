import StepScript.Proofs.CaseInsensitive
import StepScript.Proofs.Stability

/-! Strings without quotes. No expression has a value with a quote in it, so quotes come into the
variables from the host alone. While it keeps them out, no variable and no argument of a call ever
holds one, and every text whose quotes are paired can be rewritten and keeps them paired. -/
namespace StepScript

/-- A method that gives no quotes where it is given none. -/
def Method.QuoteFree (method : Method) : Prop :=
  ∀ (entropy : Entropy) (args : List Value) (value : Value), (∀ arg ∈ args, arg.QuoteFree) →
    (method.call entropy args).result = .ok (some value) → value.QuoteFree

/-- The host adds only such methods to the built-in ones. -/
def Language.QuoteFree (language : Language) : Prop :=
  ∀ method ∈ language.methods, method ∉ Builtin.methods → method.QuoteFree

theorem Builtin.quoteFree_of_mem {method : Method} (member : method ∈ methods) :
    method.QuoteFree := by
  intro entropy args value free done
  unfold Method.call at done
  split at done
  · exact methods_quoteFree member free done
  · cases done

theorem Language.QuoteFree.method {language : Language} {method : Method}
    (free : language.QuoteFree) (member : method ∈ language.methods) : method.QuoteFree := by
  by_cases own : method ∈ Builtin.methods
  · exact Builtin.quoteFree_of_mem own
  · exact free method member own

/-- The values that the host gives hold no quotes. -/
def HostOp.QuoteFree : HostOp → Prop
  | .add _ value | .set _ value => value.QuoteFree
  | _ => True

theorem HostOp.QuoteFree.binds {op : HostOp} (free : op.QuoteFree) :
    op.Binds (Holding Value.QuoteFree) := by
  cases op with
  | add name value => exact Holding.new free
  | set name value => exact fun _ bound => ⟨bound.1, free⟩
  | step | stepN | run | restart => trivial

namespace Action

variable {language : Language} {entropy : Entropy} {scope after : Scope} {text raw : Text}

theorem execute_quoteFree (methods : language.QuoteFree)
    (all : scope.All (Holding Value.QuoteFree))
    (done : (execute language entropy scope text).result = .ok (.update after)) :
    after.All (Holding Value.QuoteFree) := by
  unfold execute at done
  split at done
  · cases done
  · rename_i method args prepared
    obtain ⟨result, received, shape⟩ := Error.ok_of_map done
    cases shape
    obtain ⟨returned?, returned, received⟩ := Error.ok_of_bind received
    refine receive_keeps all ?_ received
    rintro value rfl
    exact methods.method (method_of_prepareCall prepared) entropy args value
      (prepareCall_quoteFree prepared) returned

/-- A line brings no quotes into the variables it sees. -/
theorem perform_quoteFree (methods : language.QuoteFree)
    (all : scope.All (Holding Value.QuoteFree))
    (done : (perform language entropy scope raw).result = .ok (.update after)) :
    after.All (Holding Value.QuoteFree) := by
  unfold perform at done
  split at done
  · cases done
  · obtain ⟨result, declared, shape⟩ := Error.ok_of_map done
    cases shape
    exact declare_keeps (fun _ free => free) all declared
  · exact execute_quoteFree methods all done
  · cases done
  · cases done

end Action

/-- A script beside itself, with variables that hold no quotes. -/
def Likeness.unquoted : Likeness where
  lines := Eq
  errors := Eq
  entropies := Eq
  bindings := Holding Value.QuoteFree

theorem Likeness.unquoted_lawful {language : Language} (methods : language.QuoteFree) :
    unquoted.Lawful language where
  refl _ := rfl
  shapes raw raw' same text _ := by rw [show raw = raw' from same]
  perform := by
    rintro entropy _ scope raw _ rfl all rfl
    refine ⟨?_, rfl, rfl⟩
    cases done : (Action.perform language entropy scope raw).result with
    | error e => exact .error rfl
    | ok action =>
      cases action with
      | update after => exact .ok (.update (Action.perform_quoteFree methods all done))
      | leave => exact .ok .leave
      | loop condition => exact .ok (.loop fun _ _ => .of_eq (fun _ => rfl) _)

namespace Script

variable {script : Script}

/-- The next step calls the method with these arguments. -/
def Calls (script : Script) (method : Method) (args : List Value) : Prop :=
  ∃ raw, script.nextLine? = some raw ∧ Line.preceder raw = .ok .execute ∧
    Action.prepareCall script.language script.liveScope (Line.body raw) = .ok (method, args)

/-- The scopes of a script: the outer one and that of a running block. -/
def scopes (script : Script) : List Scope :=
  script.main.scope :: (script.frame?.map (·.body.scope)).toList

theorem main_mem_scopes (script : Script) : script.main.scope ∈ script.scopes :=
  List.mem_cons_self

theorem Calls.quoteFree {method : Method} {args : List Value} (calls : script.Calls method args) :
    ∀ arg ∈ args, arg.QuoteFree := by
  obtain ⟨_, _, _, prepared⟩ := calls
  exact Action.prepareCall_quoteFree prepared

end Script

/-- The step that makes a call shows what the method shows. -/
theorem Reachable.shown_of_calls {script : Script} {method : Method} {args : List Value}
    (reached : Reachable script) (calls : script.Calls method args) :
    script.step.shown = (method.call script.entropy args).shown := by
  obtain ⟨raw, line, executes, prepared⟩ := calls
  obtain ⟨_, performs⟩ := reached.performs_nextLine line
  rw [performs.shown, Action.perform, executes]
  dsimp only
  rw [Action.execute, prepared]

/-- In every scope of a script whose host keeps quotes out, names are valid and strings are without
quotes. -/
theorem scopes_quoteFree {language : Language} (methods : language.QuoteFree) (entropy : Entropy)
    (lines : List Text) {ops : List HostOp} (host : ∀ op ∈ ops, op.QuoteFree) :
    ∀ scope ∈ (ops.foldl (fun script op => op.apply script)
      (Script.new language entropy lines)).scopes, scope.All (Holding Value.QuoteFree) := by
  have lawful := Likeness.unquoted_lawful methods
  have same : Relaid Likeness.unquoted.lines id lines lines :=
    .of_forall₂ (List.forall₂_same.mpr fun _ _ => rfl)
  have scripts := (lawful.new same (show Likeness.unquoted.entropies entropy entropy from rfl)).foldl
    lawful ops fun op member => (host op member).binds
  generalize ops.foldl (fun script op => op.apply script) (Script.new language entropy lines) =
    script at scripts ⊢
  have inner := scripts.frame
  intro scope member
  rcases List.mem_cons.mp member with rfl | body
  · exact scripts.main.allowed
  · generalize script.frame? = frame? at inner body
    cases inner with
    | none => cases body
    | some frames =>
      obtain ⟨_, _, passes, _⟩ := frames.body
      obtain rfl := List.mem_singleton.mp body
      exact passes.allowed

theorem Scope.All.tame {scope : Scope} (all : scope.All (Holding Value.QuoteFree)) :
    scope.substitutionOrder.Tame := by
  intro entry member
  rcases List.mem_append.mp member with own | shared
  · exact all.locals entry ((arrange_perm _ _).mem_iff.mp own)
  · exact all.interactive entry ((arrange_perm _ _).mem_iff.mp shared)

/-- A script cannot make a string that its own expressions could not read. If the methods of the
host give no quotes where they are given none, and the host adds and sets no quotes, then in every
state no string of the outer scope or of a running block holds a quote and none is passed to a
method, and replacing the variables of either scope in a text whose quotes are paired succeeds and
leaves them paired. -/
theorem scripts_make_no_quotes {language : Language} (methods : language.QuoteFree)
    (entropy : Entropy) (lines : List Text) {ops : List HostOp}
    (host : ∀ op ∈ ops, op.QuoteFree) :
    let script := ops.foldl (fun script op => op.apply script) (.new language entropy lines)
    (∀ scope ∈ script.scopes,
      (∀ entry ∈ scope.locals ++ scope.interactive, entry.2.QuoteFree) ∧
      ∀ text : Text, text.Paired → ∃ replaced : Text,
        Expr.substitute scope.substitutionOrder text = .ok replaced ∧ replaced.Paired) ∧
    ∀ (method : Method) (args : List Value), script.Calls method args →
      script.step.shown = (method.call script.entropy args).shown ∧
      ∀ arg ∈ args, arg.QuoteFree := by
  intro script
  constructor
  · intro scope member
    have all := scopes_quoteFree methods entropy lines host scope member
    constructor
    · intro entry bound
      rcases List.mem_append.mp bound with own | shared
      · exact (all.locals entry own).2
      · exact (all.interactive entry shared).2
    · intro text paired
      exact ⟨_, Expr.substitute_eq all.tame paired, Expr.paired_rewrite all.tame paired⟩
  · intro method args calls
    have reached : Reachable script := (Reachable.new language entropy lines).foldl ops
    exact ⟨reached.shown_of_calls calls, calls.quoteFree⟩

/-- A string made in a block by a conversion, a concatenation and a method of the host. -/
theorem block_makes_no_quotes :
    let lines := ["declare: String s = q;", "while: s == \"c\";", "\x7b",
      "execute: s = Convert.IntToString(4);", "execute: s = Echo(s + \" = s\");",
      "declare: n = 1;", "\x7d"].map String.toList
    let echo : Method := ⟨⟨"Echo".toList, [], [.string], [], some .string⟩, fun _ args =>
      .give args.head?⟩
    let language : Language := ⟨[], [⟨.string [], []⟩], [Builtin.conversion .int .string, echo]⟩
    let ops := [HostOp.add ['n'] (.int 0), .add ['q'] (.string ['c']), .stepN 4]
    let script := ops.foldl (fun script op => op.apply script) (.new language 0 lines)
    script.scopes.map (·.locals) =
      [[(['s'], .string "4 = s".toList)], [(['s'], .string "4 = s".toList)]] ∧
    (∀ scope ∈ script.scopes, ∀ entry ∈ scope.locals ++ scope.interactive, entry.2.QuoteFree) ∧
    ∃ replaced : Text, Expr.substitute script.main.scope.substitutionOrder
      "\"s\" + s".toList = .ok replaced ∧ replaced.Paired := by
  intro lines echo language ops script
  have methods : language.QuoteFree := by
    intro method member foreign
    rcases List.mem_cons.mp member with rfl | own
    · refine absurd (List.mem_append_right _ (List.mem_flatMap.mpr ⟨.int, by decide, ?_⟩)) foreign
      exact List.mem_map.mpr ⟨.string, by decide, rfl⟩
    · obtain rfl := List.mem_singleton.mp own
      intro entropy args value free done
      unfold Method.call at done
      split at done
      · exact free value (List.mem_of_mem_head? (Except.ok.inj done))
      · cases done
  have host : ∀ op ∈ ops, op.QuoteFree := by
    simp [ops, HostOp.QuoteFree, Value.QuoteFree]
  obtain ⟨scopes, _⟩ := scripts_make_no_quotes methods 0 lines host
  refine ⟨by decide +kernel, fun scope member => (scopes scope member).1, ?_⟩
  have paired : Text.Paired "\"s\" + s".toList := by decide +kernel
  exact (scopes _ script.main_mem_scopes).2 _ paired

end StepScript
