import StepScript.Proofs.Lockstep
import StepScript.Proofs.Nesting
import StepScript.Proofs.Refinement
import StepScript.Proofs.Stability

/-! Restarting. A restarted script is a new one to which the host has added the variables that it
shares, so that nothing of the abandoned run is left. If the run has left the shared variables alone
and methods do not draw on entropy, the script runs as it did from the start. -/
namespace StepScript

open Structured

section Seeding

variable {language : Language} {entropy : Entropy} {lines : List Text} {table : Table}

/-- A name of a table is its own key. -/
theorem Table.Named.key_eq (named : table.Named) {entry : Text × Value} (member : entry ∈ table) :
    isName entry.1.trim = true ∧ Scope.key entry.1 = entry.1 := by
  obtain ⟨valid, lower⟩ := named entry member
  have trimmed := trim_of_plain (plain_of_isName valid)
  refine ⟨by rw [trimmed, valid], ?_⟩
  rw [Scope.key, trimmed]
  refine (List.map_congr_left ?_).trans (List.map_id _)
  intro c inName
  exact Char.toLower_eq_of_not_isUpper (by simp [lower c inName])

theorem Table.insert_last {name : Text} (last : ∀ entry ∈ table, entry.1 < name) (value : Value) :
    table.insert name value = table ++ [(name, value)] := by
  induction table with
  | nil => rfl
  | cons first rest ih =>
    obtain ⟨below, more⟩ := List.forall_mem_cons.mp last
    simp [insert, (ne_of_lt below).symm, not_lt_of_gt below, ih more]

theorem Table.find?_of_last {name : Text} (last : ∀ entry ∈ table, entry.1 < name) :
    table.find? name = none := by
  cases found : table.find? name with
  | none => rfl
  | some value => exact absurd (last _ (Table.mem_of_find? found)) (lt_irrefl name)

theorem fresh_add_last {entry : Text × Value} (valid : isName entry.1.trim = true)
    (own : Scope.key entry.1 = entry.1) (last : ∀ other ∈ table, other.1 < entry.1) :
    (fresh language entropy lines table).addInteractive entry.1 entry.2 =
      ⟨fresh language entropy lines (table ++ [entry]), none⟩ := by
  have added : (Scope.addInteractive ⟨[], table⟩ entry.1 entry.2) =
      .ok ⟨[], table ++ [entry]⟩ := by
    simp [Scope.addInteractive, checkName, valid, own, Table.find?_of_last last,
      Table.insert_last last, bind, Except.bind, pure, Except.pure]
  simp only [Script.addInteractive, Script.write, fresh, Pass.start, Script.mapMain, added]

/-- Seeding a new script with the variables of a table gives it this table. -/
theorem seeded_eq_fresh (ordered : table.Ordered) (named : table.Named) :
    seeded language entropy lines table = fresh language entropy lines table := by
  have adding : ∀ rest done : Table, (done ++ rest).Ordered → rest.Named →
      rest.foldl (fun script entry => (script.addInteractive entry.1 entry.2).script)
        (fresh language entropy lines done) = fresh language entropy lines (done ++ rest) := by
    intro rest
    induction rest with
    | nil => simp
    | cons entry rest ih =>
      intro done ordered named
      obtain ⟨valid, own⟩ := named.key_eq List.mem_cons_self
      have last : ∀ other ∈ done, other.1 < entry.1 := fun other member =>
        (List.pairwise_append.mp ordered).2.2 other member entry List.mem_cons_self
      rw [List.foldl_cons, fresh_add_last valid own last, ih (done ++ [entry])]
      · simp
      · simpa using ordered
      · exact fun other member => named other (List.mem_cons_of_mem _ member)
  exact adding table [] ordered named

end Seeding

namespace Script

variable {script : Script} {walk : Walk}

/-- The script as a walk that knows `conditions`. -/
def toWalk (script : Script) (conditions : List (Nat × Text)) : Walk :=
  ⟨script.language, script.entropy, script.walker conditions⟩

instance (script : Script) (conditions : List (Nat × Text)) :
    Decidable (script.Knows conditions) :=
  decidable_of_iff (∀ frame ∈ script.frame?, conditions.lookup frame.entry = some frame.condition)
    Iff.rfl

theorem represents_toWalk {conditions : List (Nat × Text)} (known : script.Knows conditions) :
    script.Represents (script.toWalk conditions) :=
  ⟨rfl, rfl, conditions, rfl, known⟩

theorem toWalk_write (outside : script.frame? = none) (update : Scope → Except Error Scope)
    (conditions : List (Nat × Text)) :
    (script.write update).script.frame? = none ∧
      (script.toWalk conditions).write update = (script.write update).script.toWalk conditions := by
  unfold Script.write Walk.write toWalk
  rw [walker_outside outside, Walker.write]
  cases update script.main.scope with
  | error e =>
    constructor
    · exact outside
    · simp only [walker_outside outside]
  | ok scope =>
    simp only [mapMain, outside]
    constructor
    · trivial
    · rfl

theorem toWalk_seeded (language : Language) (entropy : Entropy) (lines : List Text)
    (seeds : List (Text × Value)) :
    seeds.foldl (fun walk (name, value) => (HostOp.add name value).move walk)
        (.new language entropy lines) = (seeded language entropy lines seeds).toWalk [] := by
  have adding : ∀ (seeds : List (Text × Value)) (script : Script), script.frame? = none →
      seeds.foldl (fun walk (name, value) => (HostOp.add name value).move walk) (script.toWalk []) =
        (seeds.foldl (fun script (name, value) => (script.addInteractive name value).script)
          script).toWalk [] := by
    intro seeds
    induction seeds with
    | nil => exact fun _ _ => rfl
    | cons seed seeds ih =>
      intro script outside
      obtain ⟨still, written⟩ := toWalk_write outside (·.addInteractive seed.1 seed.2) []
      change seeds.foldl _ ((script.toWalk []).write _) = _
      rw [written]
      exact ih _ still
  exact adding seeds (.new language entropy lines) rfl

theorem Represents.restart_eq (represents : script.Represents walk) :
    HostOp.restart.move walk = script.restart.toWalk [] := by
  obtain ⟨language, entropy, conditions, walker, _⟩ := represents
  have ground : walk.walker.ground = ⟨script.main, false, conditions⟩ := by
    rw [walker]
    cases active : script.frame? with
    | none => rw [walker_outside active, Walker.ground]
    | some frame => rw [walker_inside active, Walker.ground]
  rw [HostOp.move, Walker.restart, ground, language, entropy]
  rfl

end Script

theorem reachable_seeded (language : Language) (entropy : Entropy) (lines : List Text)
    (seeds : List (Text × Value)) : Reachable (seeded language entropy lines seeds) := by
  have reached := Reachable.foldl (.new language entropy lines)
    (seeds.map fun (name, value) => HostOp.add name value)
  rw [List.foldl_map] at reached
  exact reached

theorem Reachable.restart_eq_seeded {script : Script} (reached : Reachable script) :
    script.restart = seeded script.language script.entropy script.main.lines
      script.main.scope.interactive :=
  (seeded_eq_fresh reached.coherent.ordered.interactive reached.named.interactive).symm

/-- No method draws on entropy. -/
def Language.Steady (language : Language) : Prop :=
  ∀ method ∈ language.methods, ∀ (entropy entropy' : Entropy) (args : List Value),
    method.invoke entropy' args = method.invoke entropy args

namespace Action

variable {language : Language} {entropy entropy' : Entropy} {scope : Scope} {raw : Text}

/-- In a steady language a line does the same whatever the entropy. -/
theorem perform_steady (steady : language.Steady) :
    (perform language entropy' scope raw).result = (perform language entropy scope raw).result ∧
      (perform language entropy' scope raw).shown = (perform language entropy scope raw).shown := by
  unfold perform
  dsimp only
  split
  · exact ⟨rfl, rfl⟩
  · exact ⟨rfl, rfl⟩
  · unfold execute
    cases prepared : prepareCall language scope (Line.body raw) with
    | error e => exact ⟨rfl, rfl⟩
    | ok call =>
      obtain ⟨method, args⟩ := call
      have same : method.call entropy' args = method.call entropy args := by
        simp only [Method.call, steady method (method_of_prepareCall prepared) entropy entropy' args]
      simp only [same, and_self]
  · exact ⟨rfl, rfl⟩
  · exact ⟨rfl, rfl⟩

end Action

/-- Two scripts of the same lines, whatever their entropies. -/
def Likeness.ofLines : Likeness where
  lines := Eq
  errors := Eq
  entropies _ _ := True
  bindings _ := True

theorem Likeness.ofLines_lawful {language : Language} (steady : language.Steady) :
    ofLines.Lawful language where
  refl _ := rfl
  shapes raw raw' same text _ := by rw [show raw = raw' from same]
  perform := by
    rintro entropy entropy' scope raw _ _ _ rfl
    obtain ⟨result, shown⟩ := Action.perform_steady steady
    exact .of_eq (fun _ => rfl) (fun _ => trivial) result shown trivial

theorem Scope.Writes.interactive_eq {scope after : Scope} {name : Text}
    (writes : scope.Writes name after) (unbound : ¬ scope.interactive.Binds (key name)) :
    after.interactive = scope.interactive := by
  cases writes with
  | shared found => exact absurd (Option.isSome_of_eq_some found) unbound
  | existing | fresh => rfl

theorem Script.stepN_keeps (script : Script) (count : Nat) :
    (script.stepN count).script.language = script.language ∧
      (script.stepN count).script.main.lines = script.main.lines := by
  refine stepN_invariant (P := fun after => after.language = script.language ∧
    after.main.lines = script.main.lines) ?_ ⟨rfl, rfl⟩ count
  rintro after ⟨language, lines⟩
  exact ⟨after.step_keeps.1.trans language, after.step_keeps.2.trans lines⟩

namespace Reachable

variable {script : Script}

/-- Steps that spare each shared variable leave them all as they are. -/
theorem stepN_interactive (reached : Reachable script) {count : Nat}
    (spared : ∀ entry ∈ script.main.scope.interactive,
      (HostOp.stepN count).Spares entry.1 script) :
    (script.stepN count).script.main.scope.interactive = script.main.scope.interactive := by
  induction count generalizing script with
  | zero => rfl
  | succ count ih =>
    have first : script.step.script.main.scope.interactive = script.main.scope.interactive := by
      rcases reached.coherent.step_turns with same | ⟨target, named, writes⟩
      · rw [same]
      · refine writes.interactive_eq ?_
        intro bound
        obtain ⟨value, found⟩ := Option.isSome_iff_exists.mp bound
        have member := Table.mem_of_find? found
        obtain ⟨_, own⟩ := reached.named.interactive.key_eq member
        exact spared _ member 0 (by omega) (by simp [Script.stepN, Script.Targets, named, own])
    have later : (script.step.script.stepN count).script.main.scope.interactive =
        script.step.script.main.scope.interactive := by
      refine ih (.next .step reached) ?_
      intro entry member past within targets
      change entry ∈ script.step.script.main.scope.interactive at member
      rw [first] at member
      refine spared entry member (past + 1) (by omega) ?_
      rw [Script.stepN_succ_script]
      exact targets
    rw [Script.stepN_succ_script, later, first]

end Reachable

theorem Likeness.ofLines_fresh {language : Language} (steady : language.Steady)
    (entropy entropy' : Entropy) (lines : List Text) (table : Table) :
    ofLines.Scripts id (fresh language entropy lines table)
      (fresh language entropy' lines table) := by
  have same : Relaid ofLines.lines id lines lines :=
    .of_forall₂ (List.forall₂_same.mpr fun _ _ => rfl)
  have allowed : (Scope.mk [] table).All ofLines.bindings := .of_any (fun _ => trivial) _
  obtain ⟨main, stand⟩ := (ofLines_lawful steady).start same allowed
  exact ⟨⟨rfl, trivial, main⟩, .none, fun _ _ => stand⟩

/-- A restarted script is a new one with the variables that it shares, also where loops nest and
conditions are held apart. If no step so far has had a shared variable for its target, the methods
are steady and the host has not interfered, the script runs again as it ran before. -/
theorem restart_is_a_fresh_start :
    (∀ script : Script, Reachable script →
      let seeds := script.main.scope.interactive
      script.restart = seeded script.language script.entropy script.main.lines seeds ∧
      ∀ walk : Walk, script.Represents walk → HostOp.restart.move walk =
        seeds.foldl (fun walk (name, value) => (HostOp.add name value).move walk)
          (.new script.language script.entropy script.main.lines)) ∧
    ∀ (language : Language) (entropy : Entropy) (lines : List Text) (seeds : List (Text × Value)),
      language.Steady →
      let start := seeded language entropy lines seeds
      ∀ count : Nat, (∀ entry ∈ start.main.scope.interactive,
        (HostOp.stepN count).Spares entry.1 start) →
      ∀ again : Nat,
        let before := start.stepN again
        let after := (start.stepN count).script.restart.stepN again
        after.script.main.scope = before.script.main.scope ∧
        after.script.status = before.script.status ∧
        after.script.currentLine? = before.script.currentLine? ∧
        after.shown = before.shown ∧ after.failure? = before.failure? := by
  constructor
  · intro script reached seeds
    have eq := reached.restart_eq_seeded
    refine ⟨eq, ?_⟩
    intro walk represents
    rw [represents.restart_eq, Script.toWalk_seeded, eq]
  · intro language entropy lines seeds steady start count spared again before after
    obtain ⟨table, _, eq⟩ := seeded_fresh language entropy lines seeds
    have started : start = fresh language entropy lines table := eq
    obtain ⟨sameLanguage, sameLines⟩ := start.stepN_keeps count
    have shared : (start.stepN count).script.main.scope.interactive = table := by
      rw [(reachable_seeded language entropy lines seeds).stepN_interactive spared, eq]
      rfl
    have restarted : (start.stepN count).script.restart =
        fresh language (start.stepN count).script.entropy lines table := by
      rw [Script.restart, Scope.resetLocals, sameLanguage, sameLines, shared, started]
      rfl
    have steps : Likeness.ofLines.Steps id (start.stepN again)
        ((start.stepN count).script.restart.stepN again) := by
      rw [restarted, started]
      exact (Likeness.ofLines_fresh steady entropy _ lines table).stepN
        (Likeness.ofLines_lawful steady) again
    refine ⟨steps.script.main.scope, steps.script.status, ?_, steps.shown, ?_⟩
    · simpa [lineAt_id] using steps.script.currentLine?
    · have failure := Likeness.failure_eq_relaid steps.failure fun _ _ same => same.symm
      simpa [Failure.relaid_id] using failure

/-- A script left in its loop after the first message: the second run shows both messages. -/
theorem abandoned_loop_runs_again :
    let lines := ["declare: Int x = 1;", "while: x < n;", "\x7b", "execute: Show(x);",
      "declare: x = x + 1;", "\x7d"].map String.toList
    let shower : Method := ⟨⟨"Show".toList, [], [.int], [], none⟩, fun _ args =>
      ⟨.ok none, args.map fun value => ⟨value.display, none⟩⟩⟩
    let language : Language := ⟨[], [⟨.int 0, []⟩], [shower]⟩
    let start := seeded language 0 lines [(['n'], .int 3)]
    let stopped := (start.stepN 3).script
    let seeds := stopped.main.scope.interactive
    stopped.frame?.isSome = true ∧ seeds = [(['n'], .int 3)] ∧
    stopped.restart = seeded stopped.language stopped.entropy stopped.main.lines seeds ∧
    HostOp.restart.move (stopped.toWalk [(1, "x < n".toList)]) =
      seeds.foldl (fun walk (name, value) => (HostOp.add name value).move walk)
        (.new stopped.language stopped.entropy stopped.main.lines) ∧
    (stopped.restart.stepN 6).shown = [⟨['1'], none⟩, ⟨['2'], none⟩] ∧
    (stopped.restart.stepN 6).script.status = .completed := by
  intro lines shower language start stopped seeds
  obtain ⟨afresh, again⟩ := restart_is_a_fresh_start
  obtain ⟨eq, moved⟩ := afresh stopped (.next (.stepN 3) (reachable_seeded language 0 lines _))
  have represents : stopped.Represents (stopped.toWalk [(1, "x < n".toList)]) :=
    Script.represents_toWalk (by decide +kernel)
  have steady : language.Steady := by
    intro method member entropy entropy' args
    obtain rfl := List.mem_singleton.mp member
    rfl
  have spared : ∀ entry ∈ start.main.scope.interactive, (HostOp.stepN 3).Spares entry.1 start := by
    decide +kernel
  obtain ⟨_, status, _, shown, _⟩ := again language 0 lines [(['n'], .int 3)] steady 3 spared 6
  refine ⟨by decide +kernel, by decide +kernel, eq, moved _ represents, ?_, ?_⟩
  · rw [shown]
    decide +kernel
  · rw [status]
    decide +kernel

end StepScript
