import StepScript.Proofs.Table
import StepScript.Script.Action

/-! What a line can do to the variables it sees: it writes one binding under the name of its target,
or none. Everything later proved about scopes along a run rests on this. -/
namespace StepScript

theorem Error.ok_of_bind {α β : Type} {source : Except Error α} {next : α → Except Error β}
    {result : β} (success : (source >>= next) = .ok result) :
    ∃ value, source = .ok value ∧ next value = .ok result := by
  cases source with
  | error e => simp [bind, Except.bind] at success
  | ok value => exact ⟨value, rfl, success⟩

theorem Error.ok_of_map {α β : Type} {source : Except Error α} {f : α → β} {result : β}
    (success : f <$> source = .ok result) : ∃ value, source = .ok value ∧ f value = result := by
  cases source with
  | error e => simp [Functor.map, Except.map] at success
  | ok value => exact ⟨value, rfl, by simpa [Functor.map, Except.map] using success⟩

namespace Scope

/-- Both tables are in order. -/
structure Ordered (scope : Scope) : Prop where
  locals : scope.locals.Ordered
  interactive : scope.interactive.Ordered

/-- One binding is written under `name`: over an interactive variable or else over a local, which
keeps its kind, or as a new local. -/
inductive Writes (scope : Scope) (name : Text) : Scope → Prop where
  | shared {old value : Value} (found : scope.interactive.find? (key name) = some old)
      (kind : old.kind = value.kind) :
      Writes scope name { scope with interactive := scope.interactive.insert (key name) value }
  | existing {old value : Value} (hidden : scope.interactive.find? (key name) = none)
      (found : scope.locals.find? (key name) = some old) (kind : old.kind = value.kind) :
      Writes scope name { scope with locals := scope.locals.insert (key name) value }
  | fresh {value : Value} (unshared : scope.interactive.find? (key name) = none)
      (unbound : scope.locals.find? (key name) = none) (valid : isName name.trim = true) :
      Writes scope name { scope with locals := scope.locals.insert (key name) value }

variable {scope after : Scope} {name query : Text} {value : Value}

theorem kind_of_checkKind {old : Value} (checked : checkKind name old value = .ok ()) :
    old.kind = value.kind := by
  unfold checkKind at checked
  split at checked
  · assumption
  · cases checked

theorem isName_of_checkName {text : Text} (checked : checkName text = .ok ()) :
    isName text = true := by
  unfold checkName at checked
  split at checked
  · assumption
  · cases checked

theorem setInteractive_cases (done : scope.setInteractive name value = .ok after) :
    ∃ old, scope.interactive.find? (key name) = some old ∧ old.kind = value.kind ∧
      after = { scope with interactive := scope.interactive.insert (key name) value } := by
  unfold setInteractive at done
  split at done
  · cases done
  · rename_i old found
    obtain ⟨_, checked, result⟩ := Error.ok_of_bind done
    cases result
    exact ⟨old, found, kind_of_checkKind checked, rfl⟩

theorem addInteractive_cases (done : scope.addInteractive name value = .ok after) :
    isName name.trim = true ∧ scope.interactive.find? (key name) = none ∧
      after = { scope with interactive := scope.interactive.insert (key name) value } := by
  unfold addInteractive at done
  obtain ⟨_, checked, result⟩ := Error.ok_of_bind done
  split at result
  · cases result
  · rename_i free
    cases result
    exact ⟨isName_of_checkName checked, free, rfl⟩

theorem assign_writes (done : scope.assign name value = .ok after) : scope.Writes name after := by
  unfold assign at done
  split at done
  · obtain ⟨old, found, kind, rfl⟩ := setInteractive_cases done
    exact .shared found kind
  · rename_i old hidden found
    obtain ⟨_, checked, result⟩ := Error.ok_of_bind done
    cases result
    exact .existing hidden found (kind_of_checkKind checked)
  · cases done

theorem get?_eq_none : scope.get? name = none ↔
    scope.interactive.find? (key name) = none ∧ scope.locals.find? (key name) = none := by
  simp [get?]

theorem declareLocal_writes (unbound : scope.get? name = none)
    (done : scope.declareLocal name value = .ok after) : scope.Writes name after := by
  obtain ⟨unshared, absent⟩ := get?_eq_none.mp unbound
  unfold declareLocal at done
  obtain ⟨_, checked, result⟩ := Error.ok_of_bind done
  cases result
  exact .fresh unshared absent (isName_of_checkName checked)

namespace Writes

theorem ordered (writes : scope.Writes name after) (ordered : scope.Ordered) : after.Ordered := by
  cases writes with
  | shared => exact ⟨ordered.locals, ordered.interactive.insert _ _⟩
  | existing | fresh => exact ⟨ordered.locals.insert _ _, ordered.interactive⟩

/-- The host's variables are the same before and after. -/
theorem binds_interactive (writes : scope.Writes name after) (query : Text) :
    after.interactive.Binds query ↔ scope.interactive.Binds query := by
  cases writes with
  | shared found =>
    by_cases same : query = key name
    · simp [Table.Binds, same, found]
    · simp [Table.Binds, Table.find?_insert_of_ne same]
  | existing | fresh => exact Iff.rfl

theorem binds_locals (writes : scope.Writes name after) (bound : scope.locals.Binds query) :
    after.locals.Binds query := by
  cases writes with
  | shared => exact bound
  | existing | fresh =>
    by_cases same : query = key name
    · simp [Table.Binds, same]
    · simpa [Table.Binds, Table.find?_insert_of_ne same] using bound

/-- No other binding changes. -/
theorem find?_interactive (writes : scope.Writes name after) (other : query ≠ key name) :
    after.interactive.find? query = scope.interactive.find? query := by
  cases writes with
  | shared => exact Table.find?_insert_of_ne other _ _
  | existing | fresh => rfl

end Writes
end Scope

namespace Action

variable {language : Language} {entropy : Entropy} {scope after : Scope} {text raw : Text}

/-- The name of the variable that a line is to write. -/
def target? (raw : Text) : Option Text :=
  match Line.preceder raw with
  | .ok .declare => (Statement.declaredTarget (Line.body raw)).toOption.map (·.name)
  | .ok .execute =>
    (Statement.callTarget (Line.body raw)).toOption.join.map (·.name)
  | _ => none

theorem declare_writes (done : declare language scope text = .ok after) :
    ∃ target, Statement.declaredTarget text = .ok target ∧ scope.Writes target.name after := by
  unfold declare at done
  obtain ⟨target, named, done⟩ := Error.ok_of_bind done
  obtain ⟨written?, _, done⟩ := Error.ok_of_bind done
  obtain ⟨expr, _, done⟩ := Error.ok_of_bind done
  refine ⟨target, named, ?_⟩
  split at done
  · obtain ⟨_, _, done⟩ := Error.ok_of_bind done
    obtain ⟨value, _, done⟩ := Error.ok_of_bind done
    exact Scope.assign_writes done
  · rename_i unbound
    split at done
    · cases done
    · obtain ⟨_, _, done⟩ := Error.ok_of_bind done
      obtain ⟨value, _, done⟩ := Error.ok_of_bind done
      exact Scope.declareLocal_writes unbound done

theorem store_writes {method : Text} {target : Statement.Target} {value : Value}
    (done : store language scope method target value = .ok after) :
    scope.Writes target.name after := by
  unfold store at done
  obtain ⟨written?, _, done⟩ := Error.ok_of_bind done
  split at done
  · obtain ⟨_, _, done⟩ := Error.ok_of_bind done
    split at done
    · exact Scope.assign_writes done
    · cases done
  · rename_i unbound
    split at done
    · exact Scope.declareLocal_writes unbound done
    · split at done
      · exact Scope.declareLocal_writes unbound done
      · cases done

theorem receive_cases {method : Text} {returned? : Option Value}
    (done : receive language scope method text returned? = .ok after) :
    after = scope ∨ ∃ target, Statement.callTarget text = .ok (some target) ∧
      scope.Writes target.name after := by
  unfold receive at done
  obtain ⟨target?, named, done⟩ := Error.ok_of_bind done
  split at done
  · cases done
    exact .inl rfl
  · rename_i target
    split at done
    · cases done
    · exact .inr ⟨target, named, store_writes done⟩

theorem method_of_prepareCall {method : Method} {args : List Value}
    (prepared : prepareCall language scope text = .ok (method, args)) :
    method ∈ language.methods := by
  unfold prepareCall at prepared
  obtain ⟨name, _, prepared⟩ := Error.ok_of_bind prepared
  obtain ⟨found, named, prepared⟩ := Error.ok_of_bind prepared
  obtain ⟨raw, _, prepared⟩ := Error.ok_of_bind prepared
  obtain ⟨_, _, prepared⟩ := Error.ok_of_bind prepared
  obtain ⟨values, _, prepared⟩ := Error.ok_of_bind prepared
  cases prepared
  unfold Language.method at named
  split at named
  · rename_i listed
    cases named
    exact List.mem_of_find?_eq_some listed
  · cases named

theorem execute_cases (done : (execute language entropy scope text).result = .ok (.update after)) :
    after = scope ∨ ∃ target, Statement.callTarget text = .ok (some target) ∧
      scope.Writes target.name after := by
  unfold execute at done
  split at done
  · cases done
  · obtain ⟨result, received, shape⟩ := Error.ok_of_map done
    cases shape
    obtain ⟨returned?, _, received⟩ := Error.ok_of_bind received
    exact receive_cases received

/-- A line that leaves a scope has written its target in it, or nothing. -/
theorem perform_cases (done : (perform language entropy scope raw).result = .ok (.update after)) :
    after = scope ∨ ∃ target, target? raw = some target ∧ scope.Writes target after := by
  unfold perform at done
  split at done
  · cases done
  · rename_i declares
    obtain ⟨result, declared, shape⟩ := Error.ok_of_map done
    cases shape
    obtain ⟨target, named, writes⟩ := declare_writes declared
    exact .inr ⟨target.name, by simp [target?, declares, named, Except.toOption], writes⟩
  · rename_i executes
    rcases execute_cases done with same | ⟨target, named, writes⟩
    · exact .inl same
    · exact .inr ⟨target.name, by simp [target?, executes, named, Except.toOption], writes⟩
  · cases done
  · cases done

theorem execute_updates {action : Action}
    (done : (execute language entropy scope text).result = .ok action) :
    ∃ after, action = .update after := by
  unfold execute at done
  split at done
  · cases done
  · obtain ⟨after, _, shape⟩ := Error.ok_of_map done
    exact ⟨after, shape.symm⟩

/-- Only a `while` line asks for a loop, with the condition that it states. -/
theorem perform_loop {condition : Text}
    (done : (perform language entropy scope raw).result = .ok (.loop condition)) :
    Line.preceder raw = .ok .while ∧ condition = loopCondition (Line.body raw) := by
  unfold perform at done
  split at done
  · cases done
  · obtain ⟨_, _, shape⟩ := Error.ok_of_map done
    cases shape
  · obtain ⟨_, shape⟩ := execute_updates done
    cases shape
  · rename_i loops
    cases done
    exact ⟨loops, rfl⟩
  · cases done

end Action
end StepScript
