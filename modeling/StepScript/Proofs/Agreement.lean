import StepScript.Proofs.Host

/-! Outer scope and block scope of an active loop. Each step of the block writes the block's scope
and the outer scope takes it over; the host writes both. The two never part, so that no host write
is made by half or undone. -/
namespace StepScript

/-- The block shares the host's variables with the outer scope and has every outer local with its
value. -/
structure Scope.Agrees (outer inner : Scope) : Prop where
  interactive : inner.interactive = outer.interactive
  locals : ∀ name value, outer.locals.find? name = some value →
    inner.locals.find? name = some value

namespace Scope.Agrees

variable {outer inner after : Scope} {name : Text}

theorem refl (scope : Scope) : scope.Agrees scope :=
  ⟨rfl, fun _ _ found => found⟩

/-- Taking over the block's values restores the agreement after a write in the block. -/
theorem absorb (agrees : outer.Agrees inner) (ordered : outer.Ordered) (innerOrdered : after.Ordered)
    (shared : ∀ query, after.interactive.Binds query ↔ inner.interactive.Binds query)
    (kept : ∀ query, inner.locals.Binds query → after.locals.Binds query) :
    (outer.absorb after).Agrees after := by
  constructor
  · refine innerOrdered.interactive.ext (ordered.interactive.absorb _) ?_
    intro query
    have same := shared query
    rw [agrees.interactive] at same
    simp only [Scope.absorb, Table.find?_absorb]
    cases present : after.interactive.find? query with
    | some value =>
      have bound : outer.interactive.Binds query := same.mp (by simp [Table.Binds, present])
      obtain ⟨old, found⟩ := Option.isSome_iff_exists.mp bound
      simp [found]
    | none =>
      have unbound : ¬ outer.interactive.Binds query := fun bound => by
        simpa [Table.Binds, present] using same.mpr bound
      have missing : outer.interactive.find? query = none := by
        simpa [Table.Binds] using unbound
      simp [missing]
  · intro query value found
    simp only [Scope.absorb, Table.find?_absorb, Option.map_eq_some_iff] at found
    obtain ⟨old, outerFound, taken⟩ := found
    have bound : after.locals.Binds query :=
      kept query (by simp [Table.Binds, agrees.locals query old outerFound])
    obtain ⟨latest, present⟩ := Option.isSome_iff_exists.mp bound
    rw [present, Option.getD_some] at taken
    rw [present, taken]

theorem absorb_writes (agrees : outer.Agrees inner) (ordered : outer.Ordered)
    (innerOrdered : inner.Ordered) (writes : inner.Writes name after) :
    (outer.absorb after).Agrees after :=
  agrees.absorb ordered (writes.ordered innerOrdered) writes.binds_interactive
    fun _ => writes.binds_locals

theorem absorb_self (agrees : outer.Agrees inner) (ordered : outer.Ordered)
    (innerOrdered : inner.Ordered) : (outer.absorb inner).Agrees inner :=
  agrees.absorb ordered innerOrdered (fun _ => Iff.rfl) fun _ => id

end Scope.Agrees

theorem Scope.Ordered.absorb {outer : Scope} (ordered : outer.Ordered) (inner : Scope) :
    (outer.absorb inner).Ordered :=
  ⟨ordered.locals.absorb _, ordered.interactive.absorb _⟩

namespace Script

variable {script : Script} {frame : Frame}

/-- The line of the next step turns one scope into the other: it writes its target or nothing. -/
def Turns (script : Script) (before after : Scope) : Prop :=
  after = before ∨ ∃ target, script.target? = some target ∧ before.Writes target after

theorem turns_of_perform {raw : Text} {before after : Scope} (line : script.nextLine? = some raw)
    (done : (Action.perform script.language script.entropy before raw).result =
      .ok (.update after)) : script.Turns before after := by
  rcases Action.perform_cases done with same | ⟨target, named, writes⟩
  · exact .inl same
  · exact .inr ⟨target, by rw [target?, line, Option.bind_some, named], writes⟩

theorem Turns.ordered {before after : Scope} (turns : script.Turns before after)
    (ordered : before.Ordered) : after.Ordered := by
  rcases turns with rfl | ⟨_, _, writes⟩
  · exact ordered
  · exact writes.ordered ordered

theorem Turns.find?_interactive {before after : Scope} {name : Text}
    (turns : script.Turns before after) (spared : ¬ script.Targets name) :
    after.interactive.find? (Scope.key name) = before.interactive.find? (Scope.key name) := by
  rcases turns with rfl | ⟨target, named, writes⟩
  · rfl
  · refine writes.find?_interactive fun same => spared ?_
    rw [Targets, named, Option.map_some, same]

/-- What a step outside any block does to the scopes: a frame that it opens starts from the outer
scope. -/
theorem stepLine_scopes (running : script.isDone = false) (outside : script.frame? = none) :
    script.Turns script.main.scope script.stepLine.script.main.scope ∧
      ∀ frame, script.stepLine.script.frame? = some frame →
        frame.body.scope = script.stepLine.script.main.scope := by
  have steps := stepLine_cases script
  generalize script.stepLine = step at steps ⊢
  cases steps with
  | idle => exact ⟨.inl rfl, by simp [mapMain, outside]⟩
  | updated executes =>
    have line := executes.nextLine? running outside
    have done := congrArg Performance.result executes.performed
    exact ⟨turns_of_perform line done, by simp [outside]⟩
  | broken executes | passed executes =>
    rw [Pass.advance?_next executes.advanced]
    exact ⟨.inl rfl, by simp [outside]⟩
  | entered executes =>
    rw [Pass.advance?_next executes.advanced]
    refine ⟨.inl rfl, ?_⟩
    rintro _ ⟨⟩
    rfl
  | failed executes =>
    rw [Pass.advance?_next executes.advanced]
    exact ⟨.inl rfl, by simp⟩

theorem stepBody_scope (running : script.isDone = false) (inside : script.frame? = some frame) :
    script.Turns frame.body.scope
      (frame.body.stepBody script.language script.entropy).body.scope := by
  have steps := Pass.stepBody_steps script.language script.entropy frame.body
  generalize frame.body.stepBody script.language script.entropy = done at steps ⊢
  cases steps with
  | ended | idle => exact .inl rfl
  | updated bodyRunning advanced performed =>
    have line := nextLine?_inside running inside bodyRunning advanced
    exact turns_of_perform line (congrArg Performance.result performed)
  | broken _ advanced | nested _ advanced | failed _ advanced =>
    rw [Pass.advance?_next advanced]
    exact .inl rfl

/-- What a step in a block does to the scopes: the outer one takes over the block's, and the next
pass starts from the outer one. -/
theorem stepLoop_scopes (running : script.isDone = false) (inside : script.frame? = some frame) :
    ∃ inner, script.Turns frame.body.scope inner ∧
      (script.stepLoop frame).script.main.scope = script.main.scope.absorb inner ∧
      ∀ next, (script.stepLoop frame).script.frame? = some next →
        next.body.scope = inner ∨ next.body.scope = script.main.scope.absorb inner := by
  refine ⟨_, stepBody_scope running inside, ?_⟩
  have steps := stepLoop_cases script frame
  generalize script.stepLoop frame = step at steps ⊢
  cases steps with
  | failed | undecided => exact ⟨rfl, by simp [fail]⟩
  | broken | finished => exact ⟨rfl, by simp [leaveLoop]⟩
  | going =>
    refine ⟨rfl, ?_⟩
    rintro next ⟨⟩
    exact .inl rfl
  | again =>
    refine ⟨rfl, ?_⟩
    rintro next ⟨⟩
    exact .inr rfl

/-- Tables are in order, and outer scope and block agree. -/
structure Coherent (script : Script) : Prop where
  ordered : script.main.scope.Ordered
  bodyOrdered : ∀ frame, script.frame? = some frame → frame.body.scope.Ordered
  agrees : ∀ frame, script.frame? = some frame → script.main.scope.Agrees frame.body.scope

theorem Coherent.of_outside (outside : script.frame? = none) (ordered : script.main.scope.Ordered) :
    script.Coherent :=
  ⟨ordered, by simp [outside], by simp [outside]⟩

/-- After a line of the block, the outer scope that takes its scope over agrees with it. -/
theorem Coherent.absorb_turns {inner : Scope} (coherent : script.Coherent)
    (inside : script.frame? = some frame) (turns : script.Turns frame.body.scope inner) :
    (script.main.scope.absorb inner).Agrees inner := by
  have bodyOrdered := coherent.bodyOrdered frame inside
  rcases turns with rfl | ⟨_, _, writes⟩
  · exact (coherent.agrees frame inside).absorb_self coherent.ordered bodyOrdered
  · exact (coherent.agrees frame inside).absorb_writes coherent.ordered bodyOrdered writes

theorem Coherent.step (coherent : script.Coherent) : script.step.script.Coherent := by
  unfold Script.step
  split
  · exact coherent
  · rename_i unfinished
    have running : script.isDone = false := by simpa using unfinished
    split
    · rename_i frame inside
      obtain ⟨inner, turns, outer, next⟩ := stepLoop_scopes running inside
      have ordered := coherent.ordered
      have innerOrdered := turns.ordered (coherent.bodyOrdered frame inside)
      have agrees := coherent.absorb_turns inside turns
      refine ⟨outer ▸ ordered.absorb inner, ?_, ?_⟩
      · intro frame' active
        rcases next frame' active with same | same
        · exact same ▸ innerOrdered
        · exact same ▸ ordered.absorb inner
      · intro frame' active
        rw [outer]
        rcases next frame' active with same | same
        · exact same ▸ agrees
        · exact same ▸ .refl _
    · rename_i outside
      obtain ⟨turns, opened⟩ := stepLine_scopes running outside
      have ordered := turns.ordered coherent.ordered
      refine ⟨ordered, ?_, ?_⟩
      · intro frame active
        exact opened frame active ▸ ordered
      · intro frame active
        exact opened frame active ▸ .refl _

theorem Coherent.restart (coherent : script.Coherent) : script.restart.Coherent :=
  .of_outside rfl ⟨.nil, coherent.ordered.interactive⟩

/-- The update looks at the host's variables only and keeps their table in order. -/
structure SharedOnly (update : Scope → Except Error Scope) (rewrite : Table → Except Error Table) :
    Prop where
  update_eq : ∀ scope, update scope =
    (fun interactive => { scope with interactive }) <$> rewrite scope.interactive
  ordered : ∀ table after, rewrite table = .ok after → table.Ordered → after.Ordered

/-- The shared table with a variable of the host added. -/
def addShared (name : Text) (value : Value) (table : Table) : Except Error Table := do
  checkName name.trim
  match table.find? (Scope.key name) with
  | some _ => .error (.duplicateVariable name.trim)
  | none => return table.insert (Scope.key name) value

theorem addInteractive_sharedOnly (name : Text) (value : Value) :
    SharedOnly (·.addInteractive name value) (addShared name value) := by
  constructor
  · intro scope
    unfold Scope.addInteractive addShared
    cases checkName name.trim with
    | error e => rfl
    | ok =>
      cases scope.interactive.find? (Scope.key name) <;>
        simp [bind, Except.bind, Functor.map, Except.map, pure, Except.pure]
  · intro table after done ordered
    obtain ⟨_, _, done⟩ := Error.ok_of_bind done
    split at done
    · cases done
    · cases done
      exact ordered.insert _ _

/-- The shared table with a variable of the host set. -/
def setShared (name : Text) (value : Value) (table : Table) : Except Error Table :=
  match table.find? (Scope.key name) with
  | none => .error (.unknownVariable name.trim)
  | some old => do
    Scope.checkKind name old value
    return table.insert (Scope.key name) value

theorem setInteractive_sharedOnly (name : Text) (value : Value) :
    SharedOnly (·.setInteractive name value) (setShared name value) := by
  constructor
  · intro scope
    unfold Scope.setInteractive setShared
    cases scope.interactive.find? (Scope.key name) with
    | none => rfl
    | some old =>
      cases checked : Scope.checkKind name old value <;>
        simp [checked, bind, Except.bind, Functor.map, Except.map, pure, Except.pure]
  · intro table after done ordered
    unfold setShared at done
    split at done
    · cases done
    · obtain ⟨_, _, done⟩ := Error.ok_of_bind done
      cases done
      exact ordered.insert _ _

/-- A write that succeeds is made in the outer scope and in a running block alike; one that fails is
made in neither. -/
def AllOrNothing (script : Script) (update : Scope → Except Error Scope) : Prop :=
  let done := script.write update
  match done.error? with
  | some _ => done.script = script
  | none => update script.main.scope = .ok done.script.main.scope ∧
      ∀ frame, script.frame? = some frame → ∃ after, done.script.frame? = some after ∧
        update frame.body.scope = .ok after.body.scope

variable {update : Scope → Except Error Scope} {rewrite : Table → Except Error Table}

/-- The three ways a host write goes. The fourth, a block that refuses what the outer scope took,
would need tables that differ. -/
theorem Coherent.write_cases (coherent : script.Coherent) (shared : SharedOnly update rewrite) :
    (∃ e, script.write update = ⟨script, some e⟩) ∨
    ∃ table, rewrite script.main.scope.interactive = .ok table ∧
      ((script.frame? = none ∧ script.write update =
        ⟨script.mapMain fun main => { main with scope := ⟨main.scope.locals, table⟩ }, none⟩) ∨
      ∃ frame, script.frame? = some frame ∧ script.write update =
        ⟨{ script with
          main := { script.main with scope := ⟨script.main.scope.locals, table⟩ }
          frame? := some { frame with
            body := { frame.body with scope := ⟨frame.body.scope.locals, table⟩ } } }, none⟩) := by
  cases done : rewrite script.main.scope.interactive with
  | error e =>
    refine .inl ⟨e, ?_⟩
    simp [write, shared.update_eq, done, Functor.map, Except.map]
  | ok table =>
    refine .inr ⟨table, rfl, ?_⟩
    cases active : script.frame? with
    | none =>
      refine .inl ⟨rfl, ?_⟩
      simp [write, shared.update_eq, done, Functor.map, Except.map, mapMain, active]
    | some frame =>
      have same := (coherent.agrees frame active).interactive
      refine .inr ⟨frame, rfl, ?_⟩
      simp [write, shared.update_eq, same, done, Functor.map, Except.map, mapMain, active]

theorem Coherent.write (coherent : script.Coherent) (shared : SharedOnly update rewrite) :
    (script.write update).script.Coherent := by
  rcases coherent.write_cases shared with ⟨e, failed⟩ | ⟨table, done, written⟩
  · rw [failed]
    exact coherent
  · have tableOrdered := shared.ordered _ _ done coherent.ordered.interactive
    have ordered : Scope.Ordered ⟨script.main.scope.locals, table⟩ :=
      ⟨coherent.ordered.locals, tableOrdered⟩
    rcases written with ⟨outside, written⟩ | ⟨frame, inside, written⟩
    · rw [written]
      exact .of_outside outside ordered
    · rw [written]
      refine ⟨ordered, ?_, ?_⟩
      · rintro _ ⟨⟩
        exact ⟨(coherent.bodyOrdered frame inside).locals, tableOrdered⟩
      · rintro _ ⟨⟩
        exact ⟨rfl, (coherent.agrees frame inside).locals⟩

theorem Coherent.allOrNothing (coherent : script.Coherent) (shared : SharedOnly update rewrite) :
    script.AllOrNothing update := by
  unfold AllOrNothing
  rcases coherent.write_cases shared with ⟨e, failed⟩ | ⟨table, done, written⟩
  · simp [failed]
  · rcases written with ⟨outside, written⟩ | ⟨frame, inside, written⟩
    · simp [written, outside, shared.update_eq, done, Functor.map, Except.map, mapMain]
    · have same := (coherent.agrees frame inside).interactive
      simp [written, inside, shared.update_eq, same, done, Functor.map, Except.map]

theorem AllOrNothing.main (whole : script.AllOrNothing update) :
    (script.write update).script = script ∨
      update script.main.scope = .ok (script.write update).script.main.scope := by
  unfold AllOrNothing at whole
  dsimp only at whole
  split at whole
  · exact .inl whole
  · exact .inr whole.1

end Script

theorem Reachable.coherent {script : Script} (reached : Reachable script) : script.Coherent := by
  refine reached.invariant ?_ (fun _ => .step) (fun _ => .restart) ?_ ?_
  · intro language entropy lines
    exact .of_outside rfl ⟨.nil, .nil⟩
  · intro script name value coherent
    exact coherent.write (Script.addInteractive_sharedOnly name value)
  · intro script name value coherent
    exact coherent.write (Script.setInteractive_sharedOnly name value)

/-- The operation neither sets `name` nor takes a step whose line is to write it. -/
def HostOp.Spares (name : Text) (op : HostOp) (script : Script) : Prop :=
  match op with
  | .step => ¬ script.Targets name
  | .stepN count | .run count => ∀ taken < count, ¬ (script.stepN taken).script.Targets name
  | .restart | .add _ _ => True
  | .set other _ => Scope.key other ≠ Scope.key name

instance (name : Text) (op : HostOp) (script : Script) : Decidable (op.Spares name script) :=
  match op with
  | .step => inferInstanceAs (Decidable (¬ script.Targets name))
  | .stepN count | .run count =>
    inferInstanceAs (Decidable (∀ taken < count, ¬ (script.stepN taken).script.Targets name))
  | .restart | .add _ _ => .isTrue trivial
  | .set other _ => inferInstanceAs (Decidable (Scope.key other ≠ Scope.key name))

/-- Each of the operations spares `name` in the state it meets. -/
def HostOp.AllSpare (name : Text) : List HostOp → Script → Prop
  | [], _ => True
  | op :: more, script => op.Spares name script ∧ AllSpare name more (op.apply script)

instance allSpareDecidable (name : Text) :
    (ops : List HostOp) → (script : Script) → Decidable (HostOp.AllSpare name ops script)
  | [], _ => .isTrue trivial
  | op :: more, script =>
    have := allSpareDecidable name more (op.apply script)
    inferInstanceAs (Decidable (op.Spares name script ∧ HostOp.AllSpare name more (op.apply script)))

namespace Script

variable {script : Script} {name : Text} {value : Value}

theorem getInteractive_eq_ok : script.getInteractive name = .ok value ↔
    script.main.scope.interactive.find? (Scope.key name) = some value := by
  unfold getInteractive Scope.getInteractive
  cases script.main.scope.interactive.find? (Scope.key name) <;> simp

/-- A step whose line does not target the variable leaves its value, in a block as outside: what the
outer scope takes over from the block is what it had. -/
theorem Coherent.step_getInteractive (coherent : script.Coherent) (spared : ¬ script.Targets name)
    (held : script.getInteractive name = .ok value) :
    script.step.script.getInteractive name = .ok value := by
  rw [getInteractive_eq_ok] at held ⊢
  unfold Script.step
  split
  · exact held
  · rename_i unfinished
    have running : script.isDone = false := by simpa using unfinished
    split
    · rename_i frame inside
      obtain ⟨inner, turns, outer, _⟩ := stepLoop_scopes running inside
      have kept := turns.find?_interactive spared
      rw [(coherent.agrees frame inside).interactive, held] at kept
      simp [outer, Scope.absorb, Table.find?_absorb, held, kept]
    · rename_i outside
      rw [(stepLine_scopes running outside).1.find?_interactive spared, held]

theorem Coherent.stepN_getInteractive {count : Nat} (coherent : script.Coherent)
    (spared : ∀ taken < count, ¬ (script.stepN taken).script.Targets name)
    (held : script.getInteractive name = .ok value) :
    (script.stepN count).script.getInteractive name = .ok value := by
  induction count generalizing script with
  | zero => exact held
  | succ count ih =>
    rw [stepN_succ_script]
    refine ih coherent.step ?_ (coherent.step_getInteractive (spared 0 (by omega)) held)
    intro taken early
    have later := spared (taken + 1) (by omega)
    rwa [stepN_succ_script] at later

/-- Adding never touches a variable that is there. -/
theorem Coherent.add_getInteractive {other : Text} {new : Value} (coherent : script.Coherent)
    (held : script.getInteractive name = .ok value) :
    (script.addInteractive other new).script.getInteractive name = .ok value := by
  have whole := coherent.allOrNothing (addInteractive_sharedOnly other new)
  change (script.write _).script.getInteractive name = .ok value
  rcases whole.main with same | written
  · rwa [same]
  · obtain ⟨_, free, after⟩ := Scope.addInteractive_cases written
    rw [getInteractive_eq_ok] at held ⊢
    have differ : Scope.key name ≠ Scope.key other := by
      intro same
      rw [← same, held] at free
      cases free
    rw [after, Table.find?_insert_of_ne differ, held]

theorem Coherent.set_getInteractive {other : Text} {new : Value} (coherent : script.Coherent)
    (differ : Scope.key other ≠ Scope.key name) (held : script.getInteractive name = .ok value) :
    (script.setInteractive other new).script.getInteractive name = .ok value := by
  have whole := coherent.allOrNothing (setInteractive_sharedOnly other new)
  change (script.write _).script.getInteractive name = .ok value
  rcases whole.main with same | written
  · rwa [same]
  · obtain ⟨_, _, _, after⟩ := Scope.setInteractive_cases written
    rw [getInteractive_eq_ok] at held ⊢
    rw [after, Table.find?_insert_of_ne differ.symm, held]

theorem Coherent.getInteractive_of_set (coherent : script.Coherent)
    (done : (script.setInteractive name value).error? = none) :
    (script.setInteractive name value).script.getInteractive name = .ok value := by
  have whole := coherent.allOrNothing (setInteractive_sharedOnly name value)
  change (script.write _).error? = none at done
  change (script.write _).script.getInteractive name = .ok value
  simp only [AllOrNothing, done] at whole
  obtain ⟨_, _, _, after⟩ := Scope.setInteractive_cases whole.1
  rw [getInteractive_eq_ok, after]
  exact Table.find?_insert_self _ _ _

end Script

theorem Reachable.getInteractive_of_spares {script : Script} {name : Text} {value : Value}
    {ops : List HostOp} (reached : Reachable script) (spared : HostOp.AllSpare name ops script)
    (held : script.getInteractive name = .ok value) :
    (ops.foldl (fun script op => op.apply script) script).getInteractive name = .ok value := by
  induction ops generalizing script with
  | nil => exact held
  | cons op more ih =>
    obtain ⟨first, rest⟩ := spared
    refine ih (.next op reached) rest ?_
    cases op with
    | step => exact reached.coherent.step_getInteractive first held
    | stepN count => exact reached.coherent.stepN_getInteractive first held
    | run limit =>
      have kept := reached.coherent.stepN_getInteractive first held
      rwa [← Script.run_script] at kept
    | restart => exact held
    | add other new => exact reached.coherent.add_getInteractive held
    | set other new => exact reached.coherent.set_getInteractive first held

/-- Whatever the host has done, outer scope and running block agree, a host write is made in both or
in neither, and a value the host has set stays until it is set again or a line writes it. -/
theorem Reachable.block_agrees_and_host_writes_last {script : Script} (reached : Reachable script) :
    (∀ frame, script.frame? = some frame → script.main.scope.Agrees frame.body.scope) ∧
    (∀ name value, script.AllOrNothing (·.addInteractive name value) ∧
      script.AllOrNothing (·.setInteractive name value)) ∧
    ∀ name value ops, (script.setInteractive name value).error? = none →
      HostOp.AllSpare name ops (script.setInteractive name value).script →
      (ops.foldl (fun script op => op.apply script)
        (script.setInteractive name value).script).getInteractive name = .ok value := by
  have coherent := reached.coherent
  refine ⟨coherent.agrees, ?_, ?_⟩
  · intro name value
    have added := Script.addInteractive_sharedOnly name value
    have set := Script.setInteractive_sharedOnly name value
    exact ⟨coherent.allOrNothing added, coherent.allOrNothing set⟩
  · intro name value ops done spared
    have after : Reachable (script.setInteractive name value).script :=
      .next (.set name value) reached
    exact after.getInteractive_of_spares spared (coherent.getInteractive_of_set done)

/-- A loop that counts while the host lets it: the host stops it inside a pass, and its word stands
through the rest of the pass, further writes and a restart. -/
theorem host_stops_a_running_loop :
    let lines := ["while: go;", "\x7b", "declare: ticks = ticks + 1;", "declare: ticks = ticks;",
      "\x7d"].map String.toList
    let script := [HostOp.add ['g', 'o'] (.bool true), .add "ticks".toList (.int 0), .stepN 2].foldl
      (fun script op => op.apply script) (.new ⟨[], [], []⟩ 0 lines)
    let ops := [HostOp.step, .set "ticks".toList (.int 7), .add ['g', 'o'] (.bool true), .run 9,
      .restart]
    Reachable script ∧ script.frame?.isSome = true ∧
      (ops.foldl (fun script op => op.apply script)
        (script.setInteractive ['G', 'o'] (.bool false)).script).getInteractive ['G', 'o'] =
          .ok (.bool false) := by
  intro lines script ops
  have reached : Reachable script :=
    .next (.stepN 2) (.next (.add _ _) (.next (.add _ _) (.new _ _ _)))
  refine ⟨reached, by decide +kernel, ?_⟩
  exact reached.block_agrees_and_host_writes_last.2.2 _ _ ops (by decide +kernel) (by decide +kernel)

end StepScript
