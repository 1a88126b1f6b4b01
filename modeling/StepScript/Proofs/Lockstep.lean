import StepScript.Proofs.Host
import StepScript.Proofs.Relaid

/-! Two scripts in the hands of one host. If lines that are alike do alike things, then scripts made
of such lines stay together: whatever the host does, they have the same variables and status, show
the same messages, and stand and fail at the same place. -/
namespace StepScript

/-- Two outcomes of one sort: both are results, or both are errors. -/
inductive Likewise {α β : Type} (errors : Error → Error → Prop) (results : α → β → Prop) :
    Except Error α → Except Error β → Prop where
  | ok {a : α} {b : β} (same : results a b) : Likewise errors results (.ok a) (.ok b)
  | error {e e' : Error} (same : errors e e') : Likewise errors results (.error e) (.error e')

namespace Likewise

variable {α β γ δ : Type} {errors : Error → Error → Prop} {results : α → β → Prop}
  {later : γ → δ → Prop} {source : Except Error α} {source' : Except Error β}

theorem of_eq (refl : ∀ e, errors e e) (source : Except Error α) :
    Likewise errors Eq source source := by
  cases source with
  | error e => exact .error (refl e)
  | ok a => exact .ok rfl

theorem bind {f : α → Except Error γ} {f' : β → Except Error δ}
    (first : Likewise errors results source source')
    (next : ∀ a b, results a b → Likewise errors later (f a) (f' b)) :
    Likewise errors later (source >>= f) (source' >>= f') := by
  cases first with
  | ok same => exact next _ _ same
  | error same => exact .error same

theorem map {f : α → γ} {f' : β → δ} (first : Likewise errors results source source')
    (next : ∀ a b, results a b → later (f a) (f' b)) :
    Likewise errors later (f <$> source) (f' <$> source') := by
  cases first with
  | ok same => exact .ok (next _ _ same)
  | error same => exact .error same

end Likewise

namespace Scope

/-- Every variable, with its name, is one of the `bindings`. -/
structure All (bindings : Text × Value → Prop) (scope : Scope) : Prop where
  locals : ∀ entry ∈ scope.locals, bindings entry
  interactive : ∀ entry ∈ scope.interactive, bindings entry

namespace All

variable {bindings : Text × Value → Prop} {scope inner after : Scope} {name : Text} {value : Value}

theorem of_any (any : ∀ entry, bindings entry) (scope : Scope) : All bindings scope :=
  ⟨fun entry _ => any entry, fun entry _ => any entry⟩

theorem empty : All bindings Scope.empty := by
  constructor <;> simp [Scope.empty]

theorem resetLocals (all : All bindings scope) : All bindings scope.resetLocals :=
  ⟨by simp [Scope.resetLocals], all.interactive⟩

theorem absorb (outer : All bindings scope) (body : All bindings inner) :
    All bindings (scope.absorb inner) := by
  have tables : ∀ table source : Table, (∀ entry ∈ table, bindings entry) →
      (∀ entry ∈ source, bindings entry) → ∀ entry ∈ table.absorb source, bindings entry := by
    intro table source own taken entry member
    obtain ⟨⟨name, value⟩, old, rfl⟩ := List.mem_map.mp member
    dsimp only
    cases found : source.find? name with
    | none => exact own _ old
    | some new => exact taken _ (Table.mem_of_find? found)
  exact ⟨tables _ _ outer.locals body.locals, tables _ _ outer.interactive body.interactive⟩

theorem insert {table : Table} (all : ∀ entry ∈ table, bindings entry)
    (new : bindings (name, value)) : ∀ entry ∈ table.insert name value, bindings entry := by
  intro entry member
  rcases Table.eq_or_mem_of_mem_insert member with same | old
  · rw [same]
    exact new
  · exact all entry old

theorem addInteractive (all : All bindings scope)
    (new : isName name.trim = true → bindings (key name, value))
    (done : scope.addInteractive name value = .ok after) : All bindings after := by
  obtain ⟨valid, _, rfl⟩ := addInteractive_cases done
  exact ⟨all.locals, insert all.interactive (new valid)⟩

theorem setInteractive (all : All bindings scope)
    (new : ∀ old, bindings (key name, old) → bindings (key name, value))
    (done : scope.setInteractive name value = .ok after) : All bindings after := by
  obtain ⟨old, found, _, rfl⟩ := setInteractive_cases done
  have bound := all.interactive _ (Table.mem_of_find? found)
  exact ⟨all.locals, insert all.interactive (new old bound)⟩

theorem assign (all : All bindings scope)
    (new : ∀ old, bindings (key name, old) → bindings (key name, value))
    (done : scope.assign name value = .ok after) : All bindings after := by
  unfold Scope.assign at done
  split at done
  · exact all.setInteractive new done
  · rename_i old _ found
    obtain ⟨_, _, result⟩ := Error.ok_of_bind done
    cases result
    exact ⟨insert all.locals (new old (all.locals _ (Table.mem_of_find? found))), all.interactive⟩
  · cases done

theorem declareLocal (all : All bindings scope)
    (new : isName name.trim = true → bindings (key name, value))
    (done : scope.declareLocal name value = .ok after) : All bindings after := by
  obtain ⟨_, checked, result⟩ := Error.ok_of_bind done
  cases result
  exact ⟨insert all.locals (new (isName_of_checkName checked)), all.interactive⟩

end All
end Scope

/-- What an operation shows its host, counts and reports. -/
structure Answer where
  shown : List Message := []
  visited : List Nat := []
  steps : Nat := 0
  failure? : Option Failure := none
  refusal? : Option Error := none
deriving DecidableEq

namespace HostOp

def answer (op : HostOp) (script : Script) : Answer :=
  match op with
  | .step => { shown := script.step.shown, failure? := script.step.failure? }
  | .stepN count =>
    let done := script.stepN count
    { shown := done.shown, failure? := done.failure? }
  | .run limit =>
    let done := script.run limit
    { done with refusal? := none }
  | .restart => {}
  | .add name value => { refusal? := (script.addInteractive name value).error? }
  | .set name value => { refusal? := (script.setInteractive name value).error? }

/-- A variable that the host adds or sets is one of the `bindings`. -/
def Binds (bindings : Text × Value → Prop) : HostOp → Prop
  | .add name value => isName name.trim = true → bindings (Scope.key name, value)
  | .set name value => ∀ old, bindings (Scope.key name, old) → bindings (Scope.key name, value)
  | _ => True

theorem binds_of_any {bindings : Text × Value → Prop} (any : ∀ entry, bindings entry)
    (op : HostOp) : op.Binds bindings := by
  cases op with
  | add name value => exact fun _ => any _
  | set name value => exact fun _ _ => any _
  | step | stepN | run | restart => trivial

theorem apply_language (op : HostOp) (script : Script) :
    (op.apply script).language = script.language := by
  have steps : ∀ count, (script.stepN count).script.language = script.language :=
    Script.stepN_invariant (P := fun after => after.language = script.language)
      (fun after same => after.step_keeps.1.trans same) rfl
  have writes : ∀ update, (script.write update).script.language = script.language := by
    intro update
    have rescoped := script.write_rescoped update
    generalize (script.write update).script = after at rescoped ⊢
    cases rescoped with
    | outside | inside => rfl
  cases op with
  | step => exact script.step_keeps.1
  | stepN count => exact steps count
  | run limit => exact (congrArg Script.language (script.run_script limit)).trans (steps limit)
  | restart => rfl
  | add name value => exact writes _
  | set name value => exact writes _

theorem foldl_language (ops : List HostOp) (script : Script) :
    (ops.foldl (fun script op => op.apply script) script).language = script.language := by
  induction ops generalizing script with
  | nil => rfl
  | cons op more ih => exact (ih _).trans (op.apply_language script)

end HostOp

/-- What two scripts have in common: how their lines, their errors and their entropies are related,
and the names and values that their variables have. -/
structure Likeness where
  lines : Text → Text → Prop
  errors : Error → Error → Prop
  entropies : Entropy → Entropy → Prop
  bindings : Text × Value → Prop

namespace Likeness

variable (likeness : Likeness) (place : Nat → Nat)

/-- Conditions that every scope decides alike. -/
def Conditions (condition condition' : Text) : Prop :=
  ∀ scope : Scope, scope.All likeness.bindings →
    Likewise likeness.errors Eq (Script.holds scope condition) (Script.holds scope condition')

inductive Actions : Action → Action → Prop where
  | update {scope : Scope} (allowed : scope.All likeness.bindings) :
      Actions (.update scope) (.update scope)
  | leave : Actions .leave .leave
  | loop {condition condition' : Text} (same : likeness.Conditions condition condition') :
      Actions (.loop condition) (.loop condition')

structure Performances (done done' : Performance) : Prop where
  result : Likewise likeness.errors likeness.Actions done.result done'.result
  shown : done'.shown = done.shown
  entropy : likeness.entropies done.entropy done'.entropy

/-- Lines that are alike have the same shape and do alike things in every scope. -/
structure Lawful (language : Language) : Prop where
  refl : ∀ e, likeness.errors e e
  shapes : ∀ raw raw', likeness.lines raw raw' → Line.SameShape raw raw'
  perform : ∀ {entropy entropy' : Entropy} {scope : Scope} {raw raw' : Text},
    likeness.entropies entropy entropy' → scope.All likeness.bindings → likeness.lines raw raw' →
      likeness.Performances (Action.perform language entropy scope raw)
        (Action.perform language entropy' scope raw')

/-- The passes are over lines that are alike and have come equally far. -/
structure Passes (pass pass' : Pass) : Prop where
  lines : Relaid likeness.lines place pass.lines pass'.lines
  current : pass'.current? = pass.current?.map place
  halt : pass'.halt? = pass.halt?
  scope : pass'.scope = pass.scope
  allowed : pass.scope.All likeness.bindings

end Likeness

/-- The passes go on at the same place. -/
structure Pass.Stand (place : Nat → Nat) (pass pass' : Pass) : Prop where
  within : pass.next ≤ pass.lines.length
  next : pass'.next = place pass.next

namespace Likeness

variable {likeness : Likeness} {language : Language} {place : Nat → Nat} {pass pass' : Pass}

/-- Where any variables will do, equal results are alike. -/
theorem Performances.of_eq {done done' : Performance} (refl : ∀ e, likeness.errors e e)
    (any : ∀ entry, likeness.bindings entry) (result : done'.result = done.result)
    (shown : done'.shown = done.shown) (entropy : likeness.entropies done.entropy done'.entropy) :
    likeness.Performances done done' := by
  refine ⟨?_, shown, entropy⟩
  rw [result]
  cases done.result with
  | error e => exact .error (refl e)
  | ok action =>
    cases action with
    | update scope => exact .ok (.update (.of_any any scope))
    | leave => exact .ok .leave
    | loop condition => exact .ok (.loop fun _ _ => .of_eq refl _)

/-- A line that both passes take, with where they stand after it. -/
structure Taken (likeness : Likeness) (place : Nat → Nat) (taken taken' : Nat × Text × Pass) :
    Prop where
  index : taken'.1 = place taken.1
  within : taken.1 < taken.2.2.lines.length
  line : likeness.lines taken.2.1 taken'.2.1
  passes : likeness.Passes place taken.2.2 taken'.2.2
  next : taken.2.2.next = taken.1 + 1
  next' : taken'.2.2.next = taken'.1 + 1

namespace Passes

theorem isDone (passes : likeness.Passes place pass pass')
    (stand : pass.halt? = none → pass.Stand place pass') : pass'.isDone = pass.isDone := by
  unfold Pass.isDone
  rw [passes.halt]
  cases halt : pass.halt? with
  | some halt => rfl
  | none =>
    obtain ⟨within, next⟩ := stand halt
    rw [next, decide_eq_decide.mpr (passes.lines.length_le_iff within)]

theorem stop (passes : likeness.Passes place pass pass') (halt : Halt) :
    likeness.Passes place (pass.stop halt) (pass'.stop halt) :=
  { passes with halt := rfl }

theorem rescope (passes : likeness.Passes place pass pass') {scope : Scope}
    (allowed : scope.All likeness.bindings) :
    likeness.Passes place { pass with scope } { pass' with scope } :=
  { passes with scope := rfl, allowed }

theorem goTo (passes : likeness.Passes place pass pass') (index index' : Nat) :
    likeness.Passes place (pass.goTo index) (pass'.goTo index') :=
  { passes with }

end Passes

theorem stand_goTo {index index' : Nat}
    (moved : Block.nextMeaningful pass'.lines index' =
      place (Block.nextMeaningful pass.lines index)) :
    (pass.goTo index).Stand place (pass'.goTo index') :=
  ⟨Block.nextMeaningful_le_length _ _, moved⟩

namespace Lawful

variable {entropy entropy' : Entropy} {scope : Scope} {lines lines' : List Text}

theorem start (lawful : likeness.Lawful language)
    (relaid : Relaid likeness.lines place lines lines') (allowed : scope.All likeness.bindings) :
    likeness.Passes place (.start lines scope) (.start lines' scope) ∧
      (Pass.start lines scope).Stand place (.start lines' scope) := by
  constructor
  · exact ⟨relaid, rfl, rfl, rfl, allowed⟩
  · exact ⟨Block.nextMeaningful_le_length _ _, relaid.nextMeaningful_start lawful.shapes⟩

theorem stand_after (lawful : likeness.Lawful language) {index : Nat}
    (relaid : Relaid likeness.lines place pass.lines pass'.lines)
    (within : index < pass.lines.length) :
    (pass.goTo (index + 1)).Stand place (pass'.goTo (place index + 1)) :=
  stand_goTo (relaid.nextMeaningful_after lawful.shapes within)

theorem advance? (lawful : likeness.Lawful language) (passes : likeness.Passes place pass pass')
    (stand : pass.Stand place pass') :
    Option.Rel (likeness.Taken place) pass.advance? pass'.advance? := by
  have moved := passes.lines.nextMeaningful lawful.shapes stand.within
  have there := passes.lines.getElem? (Block.nextMeaningful_le_length pass.lines pass.next)
  simp only [Pass.advance?, stand.next, moved]
  generalize line : pass.lines[Block.nextMeaningful pass.lines pass.next]? = line? at there ⊢
  generalize pass'.lines[place (Block.nextMeaningful pass.lines pass.next)]? = line'? at there ⊢
  cases there with
  | none => exact .none
  | some same =>
    obtain ⟨within, _⟩ := List.getElem?_eq_some_iff.mp line
    exact .some ⟨rfl, within, same, { passes with current := rfl }, rfl, rfl⟩

end Lawful

/-- What a line of a block has done in both passes. -/
structure BodySteps (likeness : Likeness) (place : Nat → Nat) (done done' : BodyStep) : Prop where
  body : likeness.Passes place done.body done'.body
  stand : done.body.halt? = none → done.body.Stand place done'.body
  shown : done'.shown = done.shown
  entropy : likeness.entropies done.entropy done'.entropy
  failure : Option.Rel (fun failure failure' => failure'.1 = place failure.1 ∧
    likeness.errors failure.2 failure'.2) done.failure? done'.failure?

theorem Lawful.stepBody (lawful : likeness.Lawful language) {entropy entropy' : Entropy}
    (entropies : likeness.entropies entropy entropy') (passes : likeness.Passes place pass pass')
    (stand : pass.Stand place pass') :
    likeness.BodySteps place (pass.stepBody language entropy)
      (pass'.stepBody language entropy') := by
  unfold Pass.stepBody
  rw [passes.isDone fun _ => stand]
  split
  · exact ⟨passes, fun _ => stand, rfl, entropies, .none⟩
  have advanced := lawful.advance? passes stand
  generalize pass.advance? = taken? at advanced ⊢
  generalize pass'.advance? = taken'? at advanced ⊢
  cases advanced with
  | none =>
    refine ⟨passes.goTo _ _, fun _ => stand_goTo ?_, rfl, entropies, .none⟩
    rw [stand.next]
    exact passes.lines.nextMeaningful lawful.shapes stand.within
  | @some taken taken' both =>
    obtain ⟨index, raw, next⟩ := taken
    obtain ⟨index', raw', next'⟩ := taken'
    obtain ⟨moved, within, line, passes, stands, stands'⟩ := both
    dsimp only at moved within line passes stands stands' ⊢
    have performed := lawful.perform entropies passes.allowed line
    rw [passes.scope]
    generalize Action.perform language entropy next.scope raw = done at performed ⊢
    generalize Action.perform language entropy' next.scope raw' = done' at performed ⊢
    obtain ⟨result, shown, left⟩ := performed
    generalize done.result = outcome at result ⊢
    generalize done'.result = outcome' at result ⊢
    rw [stands, stands', moved]
    cases result with
    | error same => exact ⟨passes.stop _, nofun, shown, left, .some ⟨rfl, same⟩⟩
    | ok same =>
      cases same with
      | update allowed =>
        have rescoped := passes.rescope allowed
        exact ⟨rescoped.goTo _ _, fun _ => lawful.stand_after rescoped.lines within, shown, left,
          .none⟩
      | leave => exact ⟨(passes.goTo _ _).stop _, nofun, shown, left, .none⟩
      | loop same =>
        exact ⟨passes.stop _, nofun, shown, left, .some ⟨rfl, lawful.refl _⟩⟩

/-- Both scripts are in the block after one `while` line, equally far. -/
structure Frames (likeness : Likeness) (place : Nat → Nat) (count : Nat) (frame frame' : Frame) :
    Prop where
  entry : frame'.entry = place frame.entry
  resume : ∃ closing < count, frame.resume = closing + 1 ∧ frame'.resume = place closing + 1
  condition : likeness.Conditions frame.condition frame'.condition
  halt : frame.body.halt? = none
  body : ∃ inner : Nat → Nat,
    (∀ offset, place (frame.start + offset) = frame'.start + inner offset) ∧
      likeness.Passes inner frame.body frame'.body ∧ frame.body.Stand inner frame'.body

/-- Both scripts have executed the same lines outside their blocks, with the same variables. -/
structure Abreast (likeness : Likeness) (place : Nat → Nat) (script script' : Script) : Prop where
  language : script'.language = script.language
  entropy : likeness.entropies script.entropy script'.entropy
  main : likeness.Passes place script.main script'.main

/-- Both scripts have come equally far and go on at the same place. -/
structure Scripts (likeness : Likeness) (place : Nat → Nat) (script script' : Script) : Prop
    extends likeness.Abreast place script script' where
  frame : Option.Rel (likeness.Frames place script.main.lines.length) script.frame? script'.frame?
  stand : script.frame? = none → script.main.halt? = none → script.main.Stand place script'.main

/-- Both scripts have taken the line at `index`, outside any block, and are to carry it out. -/
structure Took (likeness : Likeness) (place : Nat → Nat) (index : Nat) (script script' : Script) :
    Prop extends likeness.Abreast place script script' where
  frame : script.frame? = none
  frame' : script'.frame? = none
  within : index < script.main.lines.length
  next : script.main.next = index + 1
  next' : script'.main.next = place index + 1

structure Failures (likeness : Likeness) (place : Nat → Nat) (failure failure' : Failure) :
    Prop where
  line : failure'.line = lineAt place failure.line
  error : likeness.errors failure.error failure'.error

/-- Where errors are alike only if they are equal, failures differ in their places only. -/
theorem failure_eq_relaid {failure? failure'? : Option Failure}
    (failures : Option.Rel (likeness.Failures place) failure? failure'?)
    (exact : ∀ e e', likeness.errors e e' → e' = e) :
    failure'? = failure?.map (Failure.relaid place) := by
  cases failures with
  | none => rfl
  | @some failure failure' same =>
    obtain ⟨line, error⟩ := same
    exact congrArg some (congrArg₂ Failure.mk line (exact _ _ error))

structure Steps (likeness : Likeness) (place : Nat → Nat) (step step' : Step) : Prop where
  script : likeness.Scripts place step.script step'.script
  shown : step'.shown = step.shown
  failure : Option.Rel (likeness.Failures place) step.failure? step'.failure?

structure Runs (likeness : Likeness) (place : Nat → Nat) (run run' : Script.Run) : Prop where
  script : likeness.Scripts place run.script run'.script
  shown : run'.shown = run.shown
  visited : run'.visited = run.visited.map (lineAt place)
  steps : run'.steps = run.steps
  failure : Option.Rel (likeness.Failures place) run.failure? run'.failure?

structure Writes (likeness : Likeness) (place : Nat → Nat) (write write' : Script.Write) :
    Prop where
  script : likeness.Scripts place write.script write'.script
  error : write'.error? = write.error?

structure Answers (likeness : Likeness) (place : Nat → Nat) (answer answer' : Answer) : Prop where
  shown : answer'.shown = answer.shown
  visited : answer'.visited = answer.visited.map (lineAt place)
  steps : answer'.steps = answer.steps
  failure : Option.Rel (likeness.Failures place) answer.failure? answer'.failure?
  refusal : answer'.refusal? = answer.refusal?

variable {script script' : Script} {frame frame' : Frame}

namespace Abreast

theorem fail (abreast : likeness.Abreast place script script') :
    likeness.Scripts place script.fail script'.fail :=
  ⟨⟨abreast.language, abreast.entropy, abreast.main.stop _⟩, .none, nofun⟩

theorem leaveLoop (abreast : likeness.Abreast place script script')
    (lawful : likeness.Lawful script.language)
    (frames : likeness.Frames place script.main.lines.length frame frame') :
    likeness.Scripts place (script.leaveLoop frame) (script'.leaveLoop frame') := by
  obtain ⟨closing, within, resume, resume'⟩ := frames.resume
  refine ⟨⟨abreast.language, abreast.entropy, abreast.main.goTo _ _⟩, .none, ?_⟩
  intro _ _
  rw [Script.leaveLoop, Script.leaveLoop, resume, resume']
  exact lawful.stand_after abreast.main.lines within

theorem repeatLoop (abreast : likeness.Abreast place script script')
    (lawful : likeness.Lawful script.language)
    (frames : likeness.Frames place script.main.lines.length frame frame') :
    Likewise likeness.errors (likeness.Scripts place) (script.repeatLoop frame)
      (script'.repeatLoop frame') := by
  unfold Script.repeatLoop
  rw [abreast.main.scope]
  refine (frames.condition _ abreast.main.allowed).bind ?_
  rintro holding _ rfl
  cases holding with
  | true =>
    obtain ⟨inner, offsets, passes, _⟩ := frames.body
    obtain ⟨body, stand⟩ := lawful.start passes.lines abreast.main.allowed
    refine .ok ⟨{ abreast with }, .some ?_, nofun⟩
    exact { frames with halt := rfl, body := ⟨inner, offsets, body, stand⟩ }
  | false => exact .ok (abreast.leaveLoop lawful frames)

end Abreast

namespace Took

variable {index : Nat}

theorem outside (took : likeness.Took place index script script') {main main' : Pass}
    (passes : likeness.Passes place main main')
    (stand : main.halt? = none → main.Stand place main') :
    likeness.Scripts place { script with main } { script' with main := main' } := by
  refine ⟨⟨took.language, took.entropy, passes⟩, ?_, fun _ => stand⟩
  rw [took.frame, took.frame']
  exact .none

/-- Both scripts open the block after the line they have taken, or pass it over, or fail. -/
theorem enterLoop (took : likeness.Took place index script script')
    (lawful : likeness.Lawful script.language) {condition condition' : Text}
    (conditions : likeness.Conditions condition condition') :
    Likewise likeness.errors (likeness.Scripts place) (script.enterLoop index condition)
      (script'.enterLoop (place index) condition') := by
  have passes := took.main
  unfold Script.enterLoop
  rw [passes.lines.find lawful.shapes took.within]
  cases found : Block.find script.main.lines index with
  | error e => exact .error (lawful.refl e)
  | ok braces =>
    obtain ⟨opening, closing⟩ := braces
    obtain ⟨inside, within⟩ := Block.find_within found
    rw [passes.scope]
    refine (conditions _ passes.allowed).bind ?_
    rintro holding _ rfl
    cases holding with
    | true =>
      obtain ⟨inner, block, offsets⟩ := passes.lines.between inside (Nat.le_of_lt within)
      obtain ⟨body, stand⟩ := lawful.start block passes.allowed
      refine .ok ⟨⟨took.language, took.entropy, { passes with }⟩, .some ?_, nofun⟩
      exact ⟨rfl, ⟨closing, within, rfl, rfl⟩, conditions, rfl, inner, offsets, body, stand⟩
    | false =>
      have stand := lawful.stand_after passes.lines within
      exact .ok (took.outside (passes.goTo _ _) fun _ => stand)

theorem enact (took : likeness.Took place index script script')
    (lawful : likeness.Lawful script.language) {action action' : Action}
    (actions : likeness.Actions action action') :
    Likewise likeness.errors (likeness.Scripts place) (script.enact index action)
      (script'.enact (place index) action') := by
  cases actions with
  | update allowed =>
    have passes := took.main.rescope allowed
    have stand := lawful.stand_after passes.lines took.within
    rw [← took.next, ← took.next'] at stand
    exact .ok (took.outside (passes.goTo _ _) fun _ => stand)
  | leave => exact .ok (took.outside ((took.main.goTo _ _).stop .broken) nofun)
  | loop conditions => exact took.enterLoop lawful conditions

end Took

namespace Scripts

theorem isDone (scripts : likeness.Scripts place script script') :
    script'.isDone = script.isDone := by
  have stand := scripts.stand
  have frames := scripts.frame
  unfold Script.isDone
  rw [scripts.main.halt]
  generalize script.frame? = frame? at frames stand ⊢
  generalize script'.frame? = frame'? at frames ⊢
  cases frames with
  | some => rfl
  | none =>
    simpa [Pass.isDone, scripts.main.halt] using scripts.main.isDone (stand rfl)

theorem status (scripts : likeness.Scripts place script script') :
    script'.status = script.status := by
  simp only [Script.status, scripts.isDone, scripts.main.halt, scripts.main.current,
    Option.isNone_map]

theorem currentLine? (scripts : likeness.Scripts place script script') :
    script'.currentLine? = script.currentLine?.map (lineAt place) := by
  simp [Script.currentLine?, scripts.main.current, Function.comp_def, lineAt]

theorem restart (scripts : likeness.Scripts place script script')
    (lawful : likeness.Lawful script.language) :
    likeness.Scripts place script.restart script'.restart := by
  obtain ⟨main, stand⟩ := lawful.start scripts.main.lines scripts.main.allowed.resetLocals
  refine ⟨⟨scripts.language, scripts.entropy, ?_⟩, .none, ?_⟩
  · rw [Script.restart, Script.restart, scripts.main.scope]
    exact main
  · intro _ _
    exact ⟨stand.within, stand.next⟩

theorem stepLine (scripts : likeness.Scripts place script script')
    (lawful : likeness.Lawful script.language) (frame : script.frame? = none)
    (frame' : script'.frame? = none) (unhalted : script.main.halt? = none) :
    likeness.Steps place script.stepLine script'.stepLine := by
  have stand := scripts.stand frame unhalted
  have advanced := lawful.advance? scripts.main stand
  unfold Script.stepLine
  generalize script.main.advance? = taken? at advanced ⊢
  generalize script'.main.advance? = taken'? at advanced ⊢
  cases advanced with
  | none =>
    refine ⟨⟨⟨scripts.language, scripts.entropy, scripts.main.goTo _ _⟩, scripts.frame, ?_⟩, rfl,
      .none⟩
    intro _ _
    refine stand_goTo ?_
    rw [stand.next]
    exact scripts.main.lines.nextMeaningful lawful.shapes stand.within
  | @some taken taken' both =>
    obtain ⟨index, raw, main⟩ := taken
    obtain ⟨index', raw', main'⟩ := taken'
    obtain ⟨moved, within, line, passes, next, next'⟩ := both
    dsimp only at moved within line passes next next' ⊢
    subst moved
    have performed : likeness.Performances
        (Action.perform script.language script.entropy main.scope raw)
        (Action.perform script'.language script'.entropy main'.scope raw') := by
      rw [scripts.language, passes.scope]
      exact lawful.perform scripts.entropy passes.allowed line
    generalize Action.perform script.language _ _ _ = done at performed ⊢
    generalize Action.perform script'.language _ _ _ = done' at performed ⊢
    have took : likeness.Took place index { script with main, entropy := done.entropy }
        { script' with main := main', entropy := done'.entropy } :=
      ⟨⟨scripts.language, performed.entropy, passes⟩, frame, frame', within, next, next'⟩
    have enacted : Likewise likeness.errors (likeness.Scripts place)
        (done.result.bind ({ script with main, entropy := done.entropy }.enact index))
        (done'.result.bind
          ({ script' with main := main', entropy := done'.entropy }.enact (place index))) :=
      performed.result.bind fun _ _ actions => took.enact lawful actions
    generalize Except.bind _ (Script.enact _ index) = outcome at enacted ⊢
    generalize Except.bind _ (Script.enact _ (place index)) = outcome' at enacted ⊢
    cases enacted with
    | ok related => exact ⟨related, performed.shown, .none⟩
    | error same => exact ⟨took.toAbreast.fail, performed.shown, .some ⟨rfl, same⟩⟩

/-- Both scripts take over the values and the position of their blocks. -/
theorem follow (scripts : likeness.Scripts place script script') {inner : Nat → Nat}
    {entropy entropy' : Entropy} (entropies : likeness.entropies entropy entropy')
    (offsets : ∀ offset, place (frame.start + offset) = frame'.start + inner offset)
    {body body' : Pass} (passes : likeness.Passes inner body body') :
    likeness.Abreast place ({ script with entropy }.follow frame body)
      ({ script' with entropy := entropy' }.follow frame' body') := by
  refine ⟨scripts.language, entropies, scripts.main.lines, ?_, scripts.main.halt, ?_, ?_⟩
  · simp only [Script.follow, passes.current, scripts.main.current]
    cases body.current? with
    | none => rfl
    | some index => exact congrArg some (offsets index).symm
  · simp only [Script.follow, passes.scope, scripts.main.scope]
  · exact scripts.main.allowed.absorb passes.allowed

theorem stepLoop (scripts : likeness.Scripts place script script')
    (lawful : likeness.Lawful script.language)
    (frames : likeness.Frames place script.main.lines.length frame frame') :
    likeness.Steps place (script.stepLoop frame) (script'.stepLoop frame') := by
  obtain ⟨inner, offsets, passes, stand⟩ := frames.body
  have moved : likeness.BodySteps inner (frame.body.stepBody script.language script.entropy)
      (frame'.body.stepBody script'.language script'.entropy) := by
    rw [scripts.language]
    exact lawful.stepBody scripts.entropy passes stand
  unfold Script.stepLoop
  generalize frame.body.stepBody script.language script.entropy = done at moved ⊢
  generalize frame'.body.stepBody script'.language script'.entropy = done' at moved ⊢
  have ended := moved.body.isDone moved.stand
  have abreast := scripts.follow moved.entropy offsets moved.body
  obtain ⟨body, stand, shown, _, failures⟩ := moved
  dsimp only
  generalize done.failure? = failure? at failures ⊢
  generalize done'.failure? = failure'? at failures ⊢
  cases failures with
  | some both =>
    obtain ⟨moved, same⟩ := both
    refine ⟨abreast.fail, shown, .some ⟨?_, same⟩⟩
    simp only [moved, lineAt, offsets]
  | none =>
    simp only [ended, body.halt]
    split
    · rename_i going
      have halt : done.body.halt? = none := by
        simp only [Pass.isDone, Bool.not_eq_true', Bool.or_eq_false_iff] at going
        simpa using going.1
      refine ⟨⟨abreast, .some ?_, fun blank => absurd blank ?_⟩, shown, .none⟩
      · exact { frames with halt, body := ⟨inner, offsets, body, stand halt⟩ }
      · exact Option.some_ne_none _
    · split
      · exact ⟨abreast.leaveLoop lawful frames, shown, .none⟩
      · have repeated := abreast.repeatLoop lawful frames
        generalize Script.repeatLoop _ frame = outcome at repeated ⊢
        generalize Script.repeatLoop _ frame' = outcome' at repeated ⊢
        cases repeated with
        | ok related => exact ⟨related, shown, .none⟩
        | error same =>
          refine ⟨abreast.fail, shown, .some ⟨?_, same⟩⟩
          simp only [frames.entry, lineAt]

theorem step (scripts : likeness.Scripts place script script')
    (lawful : likeness.Lawful script.language) :
    likeness.Steps place script.step script'.step := by
  unfold Script.step
  rw [scripts.isDone]
  split
  · exact ⟨scripts, rfl, .none⟩
  rename_i running
  have unhalted := Script.unhalted_of_running (Bool.eq_false_iff.mpr running)
  have frames := scripts.frame
  generalize active : script.frame? = frame? at frames ⊢
  generalize active' : script'.frame? = frame'? at frames ⊢
  cases frames with
  | none => exact scripts.stepLine lawful active active' unhalted
  | some frames => exact scripts.stepLoop lawful frames

theorem stepN (scripts : likeness.Scripts place script script')
    (lawful : likeness.Lawful script.language) (count : Nat) :
    likeness.Steps place (script.stepN count) (script'.stepN count) := by
  induction count generalizing script script' with
  | zero => exact ⟨scripts, rfl, .none⟩
  | succ count ih =>
    have steps := scripts.step lawful
    have language := script.step_keeps.1
    unfold Script.stepN
    rw [scripts.isDone]
    split
    · exact ⟨scripts, rfl, .none⟩
    dsimp only
    have failures := steps.failure
    generalize script.step.failure? = failure? at failures ⊢
    generalize script'.step.failure? = failure'? at failures ⊢
    cases failures with
    | some => exact steps
    | none =>
      obtain ⟨after, shown, failure⟩ := ih steps.script (language ▸ lawful)
      exact ⟨after, by simp only [steps.shown, shown], failure⟩

theorem runFrom (scripts : likeness.Scripts place script script')
    (lawful : likeness.Lawful script.language) (shown : List Message) (visited : List Nat)
    (steps limit : Nat) :
    likeness.Runs place (Script.runFrom shown visited steps limit script)
      (Script.runFrom shown (visited.map (lineAt place)) steps limit script') := by
  induction limit generalizing script script' shown visited steps with
  | zero => exact ⟨scripts, rfl, List.map_reverse.symm, rfl, .none⟩
  | succ limit ih =>
    have stepped := scripts.step lawful
    have language := script.step_keeps.1
    unfold Script.runFrom
    rw [scripts.isDone]
    split
    · exact ⟨scripts, rfl, List.map_reverse.symm, rfl, .none⟩
    dsimp only
    rw [stepped.shown, stepped.script.currentLine?]
    have failures := stepped.failure
    generalize script.step.failure? = failure? at failures ⊢
    generalize script'.step.failure? = failure'? at failures ⊢
    cases failures with
    | some same => exact ⟨stepped.script, rfl, List.map_reverse.symm, rfl, .some same⟩
    | none =>
      have later := ih stepped.script (language ▸ lawful)
        (script.step.shown.reverseAux shown) (script.step.script.currentLine?.toList ++ visited)
        (steps + 1)
      simpa [Option.toList_map] using later

theorem run (scripts : likeness.Scripts place script script')
    (lawful : likeness.Lawful script.language) (limit : Nat) :
    likeness.Runs place (script.run limit) (script'.run limit) :=
  scripts.runFrom lawful [] [] 0 limit

theorem write (scripts : likeness.Scripts place script script')
    (update : Scope → Except Error Scope)
    (keeps : ∀ scope after, scope.All likeness.bindings → update scope = .ok after →
      after.All likeness.bindings) :
    likeness.Writes place (script.write update) (script'.write update) := by
  unfold Script.write
  rw [scripts.main.scope]
  cases outer : update script.main.scope with
  | error e => exact ⟨scripts, rfl⟩
  | ok scope =>
    have main := scripts.main.rescope (keeps _ _ scripts.main.allowed outer)
    have stand := scripts.stand
    have frames := scripts.frame
    dsimp only [Script.mapMain]
    generalize script.frame? = frame? at stand frames ⊢
    generalize script'.frame? = frame'? at frames ⊢
    cases frames with
    | none =>
      refine ⟨⟨⟨scripts.language, scripts.entropy, main⟩, .none, ?_⟩, rfl⟩
      intro _ unhalted
      exact { stand rfl unhalted with }
    | some frames =>
      obtain ⟨inner, offsets, body, stand⟩ := frames.body
      dsimp only
      rw [body.scope]
      generalize updated : update _ = result
      cases result with
      | error e =>
        exact ⟨⟨⟨scripts.language, scripts.entropy, main⟩, .some { frames with }, nofun⟩, rfl⟩
      | ok within =>
        refine ⟨⟨⟨scripts.language, scripts.entropy, main⟩, .some ?_, nofun⟩, rfl⟩
        have rescoped := body.rescope (keeps _ _ body.allowed updated)
        exact { frames with body := ⟨inner, offsets, rescoped, { stand with }⟩ }

/-- An operation keeps the scripts together, and both answer it alike. -/
theorem apply (scripts : likeness.Scripts place script script')
    (lawful : likeness.Lawful script.language) (op : HostOp) (binds : op.Binds likeness.bindings) :
    likeness.Scripts place (op.apply script) (op.apply script') ∧
      likeness.Answers place (op.answer script) (op.answer script') := by
  cases op with
  | step =>
    have done := scripts.step lawful
    exact ⟨done.script, done.shown, rfl, rfl, done.failure, rfl⟩
  | stepN count =>
    have done := scripts.stepN lawful count
    exact ⟨done.script, done.shown, rfl, rfl, done.failure, rfl⟩
  | run limit =>
    have done := scripts.run lawful limit
    exact ⟨done.script, done.shown, done.visited, done.steps, done.failure, rfl⟩
  | restart => exact ⟨scripts.restart lawful, rfl, rfl, rfl, .none, rfl⟩
  | add name value =>
    have done := scripts.write (·.addInteractive name value)
      fun _ _ all added => all.addInteractive binds added
    exact ⟨done.script, rfl, rfl, rfl, .none, done.error⟩
  | set name value =>
    have done := scripts.write (·.setInteractive name value)
      fun _ _ all set => all.setInteractive binds set
    exact ⟨done.script, rfl, rfl, rfl, .none, done.error⟩

theorem foldl (scripts : likeness.Scripts place script script')
    (lawful : likeness.Lawful script.language) (ops : List HostOp)
    (binds : ∀ op ∈ ops, op.Binds likeness.bindings) :
    likeness.Scripts place (ops.foldl (fun script op => op.apply script) script)
      (ops.foldl (fun script op => op.apply script) script') := by
  induction ops generalizing script script' with
  | nil => exact scripts
  | cons op more ih =>
    obtain ⟨first, rest⟩ := List.forall_mem_cons.mp binds
    exact ih (scripts.apply lawful op first).1 ((op.apply_language script) ▸ lawful) rest

end Scripts

/-- New scripts start together. -/
theorem Lawful.new (lawful : likeness.Lawful language) {lines lines' : List Text}
    (relaid : Relaid likeness.lines place lines lines') {entropy entropy' : Entropy}
    (entropies : likeness.entropies entropy entropy') :
    likeness.Scripts place (.new language entropy lines) (.new language entropy' lines') := by
  obtain ⟨main, stand⟩ := lawful.start relaid Scope.All.empty
  exact ⟨⟨rfl, entropies, main⟩, .none, fun _ _ => stand⟩

end Likeness
end StepScript
