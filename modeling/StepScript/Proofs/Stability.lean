import StepScript.Proofs.Execution
import StepScript.Proofs.Substitution

/-! What a step does to the variables outside the blocks. It writes the one binding that its line
targets, or none; a line of a block reaches only bindings that the outer scope has already. Names,
once bound, are kept with the kinds of their values, and every name is a valid one in lower case. -/
namespace StepScript

namespace Table

variable {table source before middle after : Table} {name : Text} {value : Value}

/-- No name is lost, and each keeps the kind of its value. -/
def KeepsKinds (before after : Table) : Prop :=
  ∀ name value, before.find? name = some value →
    ∃ new, after.find? name = some new ∧ new.kind = value.kind

theorem KeepsKinds.refl (table : Table) : table.KeepsKinds table :=
  fun _ value found => ⟨value, found, rfl⟩

theorem KeepsKinds.trans (first : before.KeepsKinds middle) (second : middle.KeepsKinds after) :
    before.KeepsKinds after := by
  intro name value found
  obtain ⟨new, between, kind⟩ := first name value found
  obtain ⟨last, found, same⟩ := second name new between
  exact ⟨last, found, same.trans kind⟩

/-- A binding may be written if its name is new or has a value of the same kind. -/
theorem KeepsKinds.insert (same : ∀ old, table.find? name = some old → value.kind = old.kind) :
    table.KeepsKinds (table.insert name value) := by
  intro query old found
  by_cases written : query = name
  · subst written
    exact ⟨value, find?_insert_self _ _ _, same old found⟩
  · exact ⟨old, by rw [find?_insert_of_ne written, found], rfl⟩

/-- Names are valid and in lower case. -/
def Named (table : Table) : Prop :=
  ∀ entry ∈ table, isName entry.1 = true ∧ ∀ c ∈ entry.1, c.isUpper = false

theorem Named.nil : Named [] := by
  intro entry member
  cases member

theorem Named.insert_bound {old : Value} (named : table.Named)
    (found : table.find? name = some old) (value : Value) : (table.insert name value).Named := by
  intro entry member
  rcases eq_or_mem_of_mem_insert member with same | inside
  · rw [same]
    exact named (name, old) (mem_of_find? found)
  · exact named entry inside

theorem Named.insert_key (named : table.Named) (valid : isName name.trim = true) (value : Value) :
    (table.insert (Scope.key name) value).Named := by
  intro entry member
  rcases eq_or_mem_of_mem_insert member with same | inside
  · rw [same]
    refine ⟨isName_key valid, ?_⟩
    intro c inKey
    obtain ⟨d, _, rfl⟩ := List.mem_map.mp inKey
    exact d.isUpper_toLower_eq_false
  · exact named entry inside

/-- Where the source has the values of the table but for one binding, only that one is taken over,
and only if the table has its name. -/
theorem absorb_insert (ordered : table.Ordered)
    (agrees : ∀ name value, table.find? name = some value → source.find? name = some value)
    (name : Text) (value : Value) :
    table.absorb (source.insert name value) =
      if table.Binds name then table.insert name value else table := by
  have ordered' : Ordered (if table.Binds name then table.insert name value else table) := by
    split
    · exact ordered.insert name value
    · exact ordered
  refine (ordered.absorb _).ext ordered' ?_
  intro query
  rw [find?_absorb]
  by_cases written : query = name
  · subst written
    rw [find?_insert_self]
    split
    · rename_i bound
      obtain ⟨old, found⟩ := Option.isSome_iff_exists.mp bound
      rw [found, find?_insert_self]
      rfl
    · rename_i unbound
      have missing : table.find? query = none := by simpa [Binds] using unbound
      rw [missing]
      rfl
  · rw [find?_insert_of_ne written]
    have same : (if table.Binds name then table.insert name value else table).find? query =
        table.find? query := by
      split
      · exact find?_insert_of_ne written _ _
      · rfl
    rw [same]
    cases found : table.find? query with
    | none => rfl
    | some old => simp [agrees query old found]

end Table

namespace Scope

variable {scope outer inner after : Scope} {name : Text}

/-- In both tables no name is lost, and each keeps the kind of its value. -/
structure KeepsKinds (before after : Scope) : Prop where
  locals : before.locals.KeepsKinds after.locals
  interactive : before.interactive.KeepsKinds after.interactive

theorem KeepsKinds.refl (scope : Scope) : scope.KeepsKinds scope :=
  ⟨.refl _, .refl _⟩

theorem KeepsKinds.trans {before middle after : Scope} (first : before.KeepsKinds middle)
    (second : middle.KeepsKinds after) : before.KeepsKinds after :=
  ⟨first.locals.trans second.locals, first.interactive.trans second.interactive⟩

/-- In both tables every name is valid and in lower case. -/
structure Named (scope : Scope) : Prop where
  locals : scope.locals.Named
  interactive : scope.interactive.Named

theorem Writes.keepsKinds (writes : scope.Writes name after) : scope.KeepsKinds after := by
  cases writes with
  | shared found kind =>
    refine ⟨.refl _, .insert ?_⟩
    intro old present
    cases found.symm.trans present
    exact kind.symm
  | existing _ found kind =>
    refine ⟨.insert ?_, .refl _⟩
    intro old present
    cases found.symm.trans present
    exact kind.symm
  | fresh _ unbound =>
    refine ⟨.insert ?_, .refl _⟩
    intro old present
    cases unbound.symm.trans present

theorem Writes.named (writes : scope.Writes name after) (named : scope.Named) : after.Named := by
  cases writes with
  | shared found => exact ⟨named.locals, named.interactive.insert_bound found _⟩
  | existing _ found => exact ⟨named.locals.insert_bound found _, named.interactive⟩
  | fresh _ _ valid => exact ⟨named.locals.insert_key valid _, named.interactive⟩

/-- What a line of a block writes is written outside as well if the name is bound there, and
otherwise the outer scope stays as it is. -/
theorem Agrees.absorb_writes_cases (agrees : outer.Agrees inner) (ordered : outer.Ordered)
    (writes : inner.Writes name after) :
    outer.absorb after = outer ∨ outer.Writes name (outer.absorb after) := by
  have locals : outer.locals.absorb inner.locals = outer.locals :=
    congrArg Scope.locals (agrees.absorb_eq ordered)
  have interactive : outer.interactive.absorb inner.interactive = outer.interactive :=
    congrArg Scope.interactive (agrees.absorb_eq ordered)
  cases writes with
  | @shared old value found kind =>
    rw [agrees.interactive] at found
    have bound : outer.interactive.Binds (key name) := by simp [Table.Binds, found]
    have taken := Table.absorb_insert ordered.interactive (fun _ _ => id) (key name) value
    rw [if_pos bound] at taken
    simp only [Scope.absorb, locals, agrees.interactive, taken]
    exact .inr (.shared found kind)
  | @existing old value hidden found kind =>
    rw [agrees.interactive] at hidden
    have taken := Table.absorb_insert ordered.locals agrees.locals (key name) value
    simp only [Scope.absorb, interactive, taken]
    split
    · rename_i bound
      obtain ⟨outerOld, present⟩ := Option.isSome_iff_exists.mp bound
      cases found.symm.trans (agrees.locals _ _ present)
      exact .inr (.existing hidden present kind)
    · exact .inl rfl
  | @fresh value unshared unbound valid =>
    have taken := Table.absorb_insert ordered.locals agrees.locals (key name) value
    -- An outer local of this name would be in the block as well, and not be new there.
    have missing : ¬ outer.locals.Binds (key name) := by
      intro bound
      obtain ⟨old, present⟩ := Option.isSome_iff_exists.mp bound
      cases unbound.symm.trans (agrees.locals _ _ present)
    rw [if_neg missing] at taken
    refine .inl ?_
    simp only [Scope.absorb, interactive, taken]

end Scope

theorem Table.binds_absorb (table source : Table) (query : Text) :
    (table.absorb source).Binds query ↔ table.Binds query := by
  simp [Table.Binds, Table.find?_absorb]

/-- Only `declare` and `execute` lines have a target. -/
theorem Action.preceder_of_target? {raw target : Text} (named : Action.target? raw = some target) :
    Line.preceder raw = .ok .declare ∨ Line.preceder raw = .ok .execute := by
  unfold Action.target? at named
  split at named
  · rename_i declares
    exact .inl declares
  · rename_i executes
    exact .inr executes
  · cases named

namespace Script

variable {script : Script}

theorem Turns.keepsKinds {before after : Scope} (turns : script.Turns before after) :
    before.KeepsKinds after := by
  rcases turns with rfl | ⟨_, _, writes⟩
  · exact .refl _
  · exact writes.keepsKinds

theorem Turns.named {before after : Scope} (turns : script.Turns before after)
    (named : before.Named) : after.Named := by
  rcases turns with rfl | ⟨_, _, writes⟩
  · exact named
  · exact writes.named named

theorem Turns.binds_interactive {before after : Scope} (turns : script.Turns before after)
    (query : Text) : after.interactive.Binds query ↔ before.interactive.Binds query := by
  rcases turns with rfl | ⟨_, _, writes⟩
  · exact Iff.rfl
  · exact writes.binds_interactive query

/-- Outside as in a block, the outer scope is turned by the line of the step alone. -/
theorem Coherent.step_turns (coherent : script.Coherent) :
    script.Turns script.main.scope script.step.script.main.scope := by
  cases running : script.isDone with
  | true =>
    rw [step_of_isDone running]
    exact .inl rfl
  | false =>
    cases active : script.frame? with
    | none =>
      rw [step_outside running active]
      exact (stepLine_scopes running active).1
    | some frame =>
      obtain ⟨inner, turns, outer, _⟩ := stepLoop_scopes running active
      have agrees := coherent.agrees frame active
      rw [step_inside running active, outer]
      rcases turns with rfl | ⟨target, named, writes⟩
      · exact .inl (agrees.absorb_eq coherent.ordered)
      · rcases agrees.absorb_writes_cases coherent.ordered writes with same | written
        · exact .inl same
        · exact .inr ⟨target, named, written⟩

/-- No name that a block declares comes out of the block. -/
theorem step_binds_locals (active : script.frame? ≠ none) (query : Text) :
    script.step.script.main.scope.locals.Binds query ↔ script.main.scope.locals.Binds query := by
  cases running : script.isDone with
  | true => rw [step_of_isDone running]
  | false =>
    obtain ⟨frame, inside⟩ := Option.ne_none_iff_exists'.mp active
    obtain ⟨inner, _, outer, _⟩ := stepLoop_scopes running inside
    rw [step_inside running inside, outer]
    exact Table.binds_absorb _ _ query

/-- What adding a shared variable does to the outer scope. -/
theorem Coherent.add_scope (coherent : script.Coherent) (name : Text) (value : Value) :
    let after := (script.addInteractive name value).script.main.scope
    script.main.scope.KeepsKinds after ∧ (script.main.scope.Named → after.Named) := by
  intro after
  rcases (coherent.allOrNothing (addInteractive_sharedOnly name value)).main with same | written
  · have kept : after = script.main.scope := congrArg (·.main.scope) same
    rw [kept]
    exact ⟨.refl _, id⟩
  · obtain ⟨valid, free, added⟩ := Scope.addInteractive_cases written
    have inserted : after = _ := added
    rw [inserted]
    refine ⟨⟨.refl _, .insert ?_⟩, fun named => ⟨named.locals, named.interactive.insert_key valid _⟩⟩
    intro old present
    cases free.symm.trans present

/-- What setting a shared variable does to the outer scope. -/
theorem Coherent.set_scope (coherent : script.Coherent) (name : Text) (value : Value) :
    let after := (script.setInteractive name value).script.main.scope
    script.main.scope.KeepsKinds after ∧ (script.main.scope.Named → after.Named) := by
  intro after
  rcases (coherent.allOrNothing (setInteractive_sharedOnly name value)).main with same | written
  · have kept : after = script.main.scope := congrArg (·.main.scope) same
    rw [kept]
    exact ⟨.refl _, id⟩
  · obtain ⟨old, found, kind, set⟩ := Scope.setInteractive_cases written
    have inserted : after = _ := set
    rw [inserted]
    refine ⟨⟨.refl _, .insert ?_⟩,
      fun named => ⟨named.locals, named.interactive.insert_bound found _⟩⟩
    intro other present
    cases found.symm.trans present
    exact kind.symm

end Script

namespace Reachable

variable {script : Script} {raw : Text}

/-- The next line of a script is the one that its step executes. -/
theorem performs_nextLine (reached : Reachable script) (line : script.nextLine? = some raw) :
    ∃ index, script.Performs index raw := by
  unfold Script.nextLine? at line
  split at line
  · cases line
  · rename_i unfinished
    have running : script.isDone = false := by simpa using unfinished
    split at line
    · rename_i outside
      obtain ⟨⟨index, _, main⟩, advanced, rfl⟩ := Option.map_eq_some_iff.mp line
      exact ⟨index, Script.performs_outside running outside advanced⟩
    · rename_i frame inside
      split at line
      · cases line
      · rename_i bodyUnfinished
        have bodyRunning : frame.body.isDone = false := by simpa using bodyUnfinished
        obtain ⟨⟨index, _, next⟩, advanced, rfl⟩ := Option.map_eq_some_iff.mp line
        obtain ⟨fits, _⟩ := reached.framed frame inside
        obtain ⟨_, _, bodySettled⟩ := reached.settled.inside frame inside
        cases bodySettled.advance?_index advanced
        exact ⟨_, Script.performs_inside running inside fits bodyRunning advanced⟩

theorem named (reached : Reachable script) : script.main.scope.Named := by
  have both := reached.invariant (P := fun script => script.Coherent ∧ script.main.scope.Named)
    ?_ ?_ ?_ ?_ ?_
  · exact both.2
  · intro language entropy lines
    exact ⟨.of_outside rfl ⟨.nil, .nil⟩, .nil, .nil⟩
  · rintro script ⟨coherent, named⟩
    exact ⟨coherent.step, coherent.step_turns.named named⟩
  · rintro script ⟨coherent, named⟩
    exact ⟨coherent.restart, .nil, named.interactive⟩
  · rintro script name value ⟨coherent, named⟩
    have shared := Script.addInteractive_sharedOnly name value
    exact ⟨coherent.write shared, (coherent.add_scope name value).2 named⟩
  · rintro script name value ⟨coherent, named⟩
    have shared := Script.setInteractive_sharedOnly name value
    exact ⟨coherent.write shared, (coherent.set_scope name value).2 named⟩

theorem stepN_keepsKinds (reached : Reachable script) (count : Nat) :
    script.main.scope.KeepsKinds (script.stepN count).script.main.scope := by
  have both := Script.stepN_invariant
    (P := fun after => after.Coherent ∧ script.main.scope.KeepsKinds after.main.scope)
    ?_ ⟨reached.coherent, .refl _⟩ count
  · exact both.2
  · rintro after ⟨coherent, kept⟩
    exact ⟨coherent.step, kept.trans coherent.step_turns.keepsKinds⟩

/-- No operation but a restart loses a variable or changes its kind. -/
theorem apply_keepsKinds (reached : Reachable script) {op : HostOp} (forward : op ≠ .restart) :
    script.main.scope.KeepsKinds (op.apply script).main.scope := by
  cases op with
  | step => exact reached.coherent.step_turns.keepsKinds
  | stepN count => exact reached.stepN_keepsKinds count
  | run limit =>
    have kept := reached.stepN_keepsKinds limit
    rwa [← Script.run_script] at kept
  | restart => exact absurd rfl forward
  | add name value => exact (reached.coherent.add_scope name value).1
  | set name value => exact (reached.coherent.set_scope name value).1

theorem foldl_keepsKinds (reached : Reachable script) {ops : List HostOp}
    (forward : HostOp.restart ∉ ops) :
    script.main.scope.KeepsKinds
      (ops.foldl (fun script op => op.apply script) script).main.scope := by
  induction ops generalizing script with
  | nil => exact .refl _
  | cons op more ih =>
    rw [List.mem_cons, not_or] at forward
    have first := reached.apply_keepsKinds (Ne.symm forward.1)
    exact first.trans (ih (reached.next op) forward.2)

/-- A step writes at most the binding that its `declare` or `execute` line targets, in one of the two
tables. No variable is lost and none changes its kind, in a step or in any run without a restart; a
new one is local and comes of a line outside the blocks; and every name is a valid one in lower
case. -/
theorem step_writes_only_its_target (reached : Reachable script) :
    let before := script.main.scope
    let after := script.step.script.main.scope
    before.Named ∧ before.KeepsKinds after ∧
    (after = before ∨ ∃ index raw target, script.Performs index raw ∧
      (Line.preceder raw = .ok .declare ∨ Line.preceder raw = .ok .execute) ∧
      Action.target? raw = some target ∧ before.Writes target after) ∧
    (∀ name, after.interactive.Binds name ↔ before.interactive.Binds name) ∧
    (script.frame? ≠ none → ∀ name, after.locals.Binds name ↔ before.locals.Binds name) ∧
    ∀ ops : List HostOp, .restart ∉ ops →
      before.KeepsKinds (ops.foldl (fun script op => op.apply script) script).main.scope := by
  intro before after
  have turns : script.Turns before after := reached.coherent.step_turns
  refine ⟨reached.named, turns.keepsKinds, ?_, turns.binds_interactive, Script.step_binds_locals,
    fun _ => reached.foldl_keepsKinds⟩
  rcases turns with same | ⟨target, aimed, writes⟩
  · exact .inl same
  · obtain ⟨raw, line, named⟩ := Option.bind_eq_some_iff.mp aimed
    obtain ⟨index, performs⟩ := reached.performs_nextLine line
    exact .inr ⟨index, raw, target, performs, Action.preceder_of_target? named, named, writes⟩

end Reachable

/-- A block declares a name of its own, and the outer scope does not learn of it. -/
theorem block_keeps_its_name :
    let lines := ["while: Go;", "\x7b", "declare: Int T = 1;", "declare: go = T > 1;", "\x7d"].map
      String.toList
    let script := [HostOp.add ['G', 'o'] (.bool true), .step].foldl
      (fun script op => op.apply script) (.new ⟨[], [⟨.int 0, []⟩], []⟩ 0 lines)
    let after := script.step.script.main.scope
    Reachable script ∧ script.frame? ≠ none ∧ script.main.scope.Named ∧
      script.step.failure? = none ∧ ¬ after.locals.Binds ['t'] ∧
      after.interactive.Binds ['g', 'o'] := by
  intro lines script after
  have reached : Reachable script := .next .step (.next (.add _ _) (.new _ _ _))
  have active : script.frame?.isSome = true := by decide +kernel
  have inside : script.frame? ≠ none := Option.isSome_iff_ne_none.mp active
  obtain ⟨named, _, _, shared, locals, _⟩ := reached.step_writes_only_its_target
  refine ⟨reached, inside, named, by decide +kernel, ?_, ?_⟩
  · rw [locals inside]
    decide +kernel
  · rw [shared]
    decide +kernel

end StepScript
