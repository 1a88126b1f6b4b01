import StepScript.CommandLine
import StepScript.Proofs.Restart
import StepScript.Proofs.Separators

/-! Seeds. The command prints the variables of a script as names with literals, and takes variables
as names with kinds and texts. The two fit together: what it has printed can be handed to it again,
and the next run starts with the variables that the last one ended with. -/
namespace StepScript

open Decimal

namespace Value

variable {v : Value}

/-- The value is no NaN. -/
def IsNumber (v : Value) : Prop :=
  ∀ x, v = .double x → Double.isNaN x = false

theorem trim_literal (number : v.IsNumber) : v.literal.trim = v.literal := by
  cases v with
  | bool b =>
    cases b with
    | true => rfl
    | false => rfl
  | int n => exact trim_renderInteger n.toInt
  | double x =>
    obtain ⟨text, written, body⟩ := literal_double (number x rfl)
    rw [written]
    exact trim_signed body.plain body.nonempty
  | string s => exact trim_enclosed rfl rfl

theorem create_trim (kind : Kind) (raw : Text) : create kind raw.trim = create kind raw := by
  simp only [create, Text.trim_trim]

/-- The literal of a value is a text that a host can give for it. -/
theorem create_literal (number : v.IsNumber) : create v.kind v.literal = .ok v := by
  simp only [create, trim_literal number]
  cases v with
  | bool b =>
    cases b with
    | true => rfl
    | false => rfl
  | int n =>
    have read : readInt? (Value.int n).literal = some n := readInt?_renderInt n
    simp only [kind, read, Option.map_some]
  | double x =>
    obtain ⟨text, written, body⟩ := literal_double (number x rfl)
    have read : Double.read? (Value.double x).literal = some x := by
      rw [written, body.read?, Double.ofCode_code]
    simp only [kind, read, Option.map_some]
  | string s => simp [kind, literal, create.unquote, Text.dropSuffix?]

end Value

theorem Kind.ofName?_name (kind : Kind) : Kind.ofName? kind.name.toList = some kind := by
  cases kind <;> decide

theorem Kind.colon_not_mem_name (kind : Kind) : ':' ∉ kind.name.toList := by
  cases kind <;> decide

namespace CommandLine

variable {name : Text} {v : Value} {table : Table}

/-- What the option `--var` takes for the variable. -/
def seedArg (binding : Text × Value) : Text :=
  binding.1 ++ '=' :: (binding.2.kind.name.toList ++ ':' :: binding.2.literal)

def seedArgs (table : Table) : List Text :=
  table.flatMap fun binding => ["--var".toList, seedArg binding]

/-- A printed line with the kind of the value put in, after the equals sign. -/
def typedLine (binding : Text × Value) : Text :=
  match Text.splitFirst '=' (renderBinding binding) with
  | some (before, after) => before ++ '=' :: (binding.2.kind.name.toList ++ ':' :: after)
  | none => renderBinding binding

/-- Blanks around the name and around the literal do not matter. -/
theorem readVar_padded {left before after : Text} (valid : isName name = true)
    (number : v.IsNumber) (blankLeft : ∀ c ∈ left, isBlank c = true)
    (blankBefore : ∀ c ∈ before, isBlank c = true) (blankAfter : ∀ c ∈ after, isBlank c = true) :
    readVar (name ++ left ++ '=' :: (v.kind.name.toList ++ ':' :: (before ++ v.literal ++ after))) =
      .ok (name, v) := by
  have plain := plain_of_isName valid
  have free : '=' ∉ name ++ left := by
    intro member
    rcases List.mem_append.mp member with inName | inLeft
    · exact not_mem_of_plain plain rfl inName
    · exact absurd (blankLeft _ inLeft) (by decide)
  have named : Text.trim (name ++ left) = name := by
    have padded := Text.trim_pad (List.forall_mem_nil _) blankLeft name
    rwa [List.nil_append, trim_of_plain plain] at padded
  have created : Value.create v.kind (before ++ v.literal ++ after) = .ok v := by
    rw [← Value.create_trim, Text.trim_pad blankBefore blankAfter, Value.create_trim,
      Value.create_literal number]
  simp only [readVar, Text.splitFirst_append free, Text.splitFirst_append v.kind.colon_not_mem_name,
    v.kind.ofName?_name, created, named]

theorem readVar_seedArg (valid : isName name = true) (number : v.IsNumber) :
    readVar (seedArg (name, v)) = .ok (name, v) := by
  have none := List.forall_mem_nil fun c => isBlank c = true
  have read := readVar_padded valid number none none none
  simpa [seedArg] using read

theorem readVar_typedLine (valid : isName name = true) (number : v.IsNumber) :
    readVar (typedLine (name, v)) = .ok (name, v) := by
  have free : '=' ∉ name ++ [' '] := by
    simpa using not_mem_of_plain (plain_of_isName valid) (show isPlain '=' = false from rfl)
  have line : typedLine (name, v) =
      name ++ [' '] ++ '=' :: (v.kind.name.toList ++ ':' :: ([' '] ++ v.literal ++ ['\n'])) := by
    have printed : renderBinding (name, v) = name ++ [' '] ++ '=' :: ' ' :: (v.literal ++ ['\n']) := by
      simp [renderBinding]
    rw [typedLine, printed, Text.splitFirst_append free]
    simp
  have space : ∀ c ∈ [' '], isBlank c = true := List.forall_mem_singleton.mpr (by decide)
  rw [line]
  exact readVar_padded valid number space space (List.forall_mem_singleton.mpr (by decide))

section Reading

variable {reader : Reader} {options : Options} {arg : Text}

theorem Reader.next_plain (flags : reader.literal = false) (plain : arg.head? ≠ some '-') :
    reader.next arg = reader.take arg := by
  rw [Reader.next, flags]
  · rfl
  · rintro rfl
    exact plain rfl
  · rintro body rfl
    exact plain rfl
  · rintro c more rfl
    exact plain rfl

theorem Reader.next_var (flags : reader.literal = false) (settled : reader.settle = .ok options) :
    reader.next "--var".toList = .ok { reader with options, pending? := some (.var, none) } := by
  have flag : Flag.ofName? "var".toList = some (.valued .var) := rfl
  change (if reader.literal = true then _ else reader.long "var".toList none) = _
  rw [if_neg (by simp [flags])]
  unfold Reader.long
  rw [flag]
  change (reader.settle >>= _) = _
  rw [settled]
  rfl

theorem seedArg_head {binding : Text × Value} (valid : isName binding.1 = true) :
    (seedArg binding).head? ≠ some '-' := by
  obtain ⟨c, rest, cut⟩ := List.exists_cons_of_ne_nil (ne_nil_of_isName valid)
  have plain : isPlain c = true := plain_of_isName valid c (cut ▸ List.mem_cons_self)
  rw [seedArg, cut]
  intro dash
  cases dash
  cases plain

/-- The reader takes up a variable and holds it, what it held before being settled. -/
theorem Reader.readAll_seedArg {binding : Text × Value} (flags : reader.literal = false)
    (settled : reader.settle = .ok options) (valid : isName binding.1 = true) (rest : List Text) :
    reader.readAll ("--var".toList :: seedArg binding :: rest) =
      readAll { reader with options, pending? := some (.var, some (seedArg binding)) } rest := by
  let awaiting : Reader := { reader with options, pending? := some (.var, none) }
  have taken : awaiting.next (seedArg binding) = awaiting.take (seedArg binding) :=
    Reader.next_plain flags (seedArg_head valid)
  change (reader.next "--var".toList >>= fun r => r.next (seedArg binding) >>= fun r =>
    r.readAll rest) = _
  rw [Reader.next_var flags settled]
  change (awaiting.next (seedArg binding) >>= fun r => r.readAll rest) = _
  rw [taken]
  rfl

/-- Each variable is read where it stands, after all before it. -/
theorem Reader.readAll_seedArgs (flags : reader.literal = false)
    (settled : reader.settle = .ok options) (named : ∀ binding ∈ table, isName binding.1 = true)
    (numbers : ∀ binding ∈ table, binding.2.IsNumber) :
    reader.readAll (seedArgs table) = .ok { options with vars := options.vars ++ table } := by
  induction table generalizing reader options with
  | nil => rw [List.append_nil]; exact settled
  | cons binding table ih =>
    obtain ⟨valid, named⟩ := List.forall_mem_cons.mp named
    obtain ⟨number, numbers⟩ := List.forall_mem_cons.mp numbers
    let holding : Reader := { reader with options, pending? := some (.var, some (seedArg binding)) }
    have read : holding.settle = .ok { options with vars := options.vars ++ [binding] } := by
      change Valued.var.apply options (seedArg binding) = _
      rw [Valued.apply, readVar_seedArg valid number]
    have plain : holding.literal = false := flags
    change reader.readAll ("--var".toList :: seedArg binding :: seedArgs table) = _
    rw [Reader.readAll_seedArg flags settled valid, ih plain read named numbers, List.append_assoc]
    rfl

end Reading

section Running

open StepScript.Structured

variable {language : Language} {entropy : Entropy} {lines : List Text} {file source : Text}

/-- What is handed to a new script is what it starts with. -/
theorem seed_fresh (ordered : table.Ordered) (named : table.Named) :
    seed (Script.new language entropy lines) table = .ok (fresh language entropy lines table) := by
  have adding : ∀ rest done : Table, (done ++ rest).Ordered → rest.Named →
      seed (fresh language entropy lines done) rest =
        .ok (fresh language entropy lines (done ++ rest)) := by
    intro rest
    induction rest with
    | nil => simp [seed]
    | cons entry rest ih =>
      intro done ordered named
      obtain ⟨valid, own⟩ := named.key_eq List.mem_cons_self
      have last : ∀ other ∈ done, other.1 < entry.1 := fun other member =>
        (List.pairwise_append.mp ordered).2.2 other member entry List.mem_cons_self
      rw [seed, fresh_add_last valid own last]
      change seed (fresh language entropy lines (done ++ [entry])) rest = _
      rw [ih (done ++ [entry])]
      · simp
      · simpa using ordered
      · exact fun other member => named other (List.mem_cons_of_mem _ member)
  exact adding table [] ordered named

theorem readArgs_seedArgs (present : file ≠ []) (plain : file.head? ≠ some '-')
    (named : ∀ binding ∈ table, isName binding.1 = true)
    (numbers : ∀ binding ∈ table, binding.2.IsNumber) :
    readArgs (file :: seedArgs table) =
      .ok { Options.initial with file? := some file, vars := table } := by
  let holding : Reader := { Reader.initial with pending? := some (.file, some file) }
  have taken : Reader.initial.next file = .ok holding := Reader.next_plain rfl plain
  have read : holding.settle = .ok { Options.initial with file? := some file } := by
    change Valued.file.apply Options.initial file = _
    rw [Valued.apply, if_neg (by simpa using present)]
  change (Reader.initial.next file >>= fun r => r.readAll (seedArgs table)) = _
  rw [taken]
  have flags : holding.literal = false := rfl
  exact Reader.readAll_seedArgs flags read named numbers

/-- A run that is given the variables of a table starts with this table. -/
theorem run_seedArgs (read : Text → Except ReadError Text) (builtin : Language.builtin = .ok language)
    (present : file ≠ []) (plain : file.head? ≠ some '-') (found : read file = .ok source)
    (ordered : table.Ordered) (named : table.Named)
    (numbers : ∀ binding ∈ table, binding.2.IsNumber) :
    run read entropy (file :: seedArgs table) =
      runScript { Options.initial with file? := some file, vars := table } file
        (fresh language entropy source.lines table) := by
  have args := readArgs_seedArgs present plain (fun binding member => (named binding member).1) numbers
  have seeded : seed (Script.ofSource language entropy source) table =
      .ok (fresh language entropy source.lines table) := seed_fresh ordered named
  have responded : respond read entropy { Options.initial with file? := some file, vars := table } =
      .ok (runScript { Options.initial with file? := some file, vars := table } file
        (fresh language entropy source.lines table)) := by
    simp only [respond, Options.initial, builtin, bind, Except.bind, found, seeded]
    rfl
  rw [run, args]
  dsimp only
  rw [responded]

end Running
end CommandLine

open CommandLine Structured in
/-- A value is given back by its literal as the text for its kind, whatever a string holds, and a
variable by its name and literal as the value of `--var`, as by the line printed for it once the
kind is put in. So the variables that a script ends with can all be handed to another run, which
starts with them. -/
theorem printed_variables_seed (v : Value) (number : v.IsNumber) :
    Value.create v.kind v.literal = .ok v ∧
    (∀ name, isName name = true →
      readVar (name ++ '=' :: (v.kind.name.toList ++ ':' :: v.literal)) = .ok (name, v) ∧
      readVar (typedLine (name, v)) = .ok (name, v)) ∧
    ∀ script : Script, Reachable script →
      (∀ binding ∈ script.main.scope.interactive, binding.2.IsNumber) →
      ∀ (read : Text → Except ReadError Text) (entropy : Entropy) (file source : Text)
        (language : Language), Language.builtin = .ok language → read file = .ok source →
        file ≠ [] → file.head? ≠ some '-' →
        run read entropy (file :: seedArgs script.main.scope.interactive) =
          runScript { Options.initial with
            file? := some file, vars := script.main.scope.interactive } file
            (fresh language entropy source.lines script.main.scope.interactive) := by
  refine ⟨Value.create_literal number, fun name valid => ⟨readVar_seedArg valid number, ?_⟩, ?_⟩
  · exact readVar_typedLine valid number
  · intro script reached numbers read entropy file source language builtin found present plain
    exact run_seedArgs read builtin present plain found reached.coherent.ordered.interactive
      reached.named.interactive numbers

open CommandLine Structured in
/-- A string with blanks at its ends, quotes, a colon and an equals sign is printed and read, and a
run takes it up. -/
theorem string_with_separators_seeds :
    let v : Value := .string " a\": = \"b ".toList
    (Value.create .string "\" a\": = \"b \"".toList = .ok v ∧
      readVar "x=String:\" a\": = \"b \"".toList = .ok (['x'], v) ∧
      readVar "x =String: \" a\": = \"b \"\n".toList = .ok (['x'], v)) ∧
    ∃ language, Language.builtin = .ok language ∧
      run (fun _ => .ok []) 0 [['a'], "--var".toList, "x=String:\" a\": = \"b \"".toList] =
        runScript { Options.initial with file? := some ['a'], vars := [(['x'], v)] } ['a']
          (fresh language 0 [] [(['x'], v)]) := by
  intro v
  have number : v.IsNumber := nofun
  obtain ⟨created, seeds, runs⟩ := printed_variables_seed v number
  obtain ⟨given, printed⟩ := seeds ['x'] (by decide)
  have arg : ['x'] ++ '=' :: (v.kind.name.toList ++ ':' :: v.literal) =
      "x=String:\" a\": = \"b \"".toList := by decide
  have line : typedLine (['x'], v) = "x =String: \" a\": = \"b \"\n".toList := by decide +kernel
  rw [arg] at given
  rw [line] at printed
  refine ⟨⟨created, given, printed⟩, ?_⟩
  have built : Language.builtin.toBool = true := by decide +kernel
  cases builtin : Language.builtin with
  | error e =>
    rw [builtin] at built
    cases built
  | ok language =>
    refine ⟨language, rfl, ?_⟩
    have reached : Reachable ((Script.new language 0 []).addInteractive ['x'] v).script :=
      .next (.add ['x'] v) (.new language 0 [])
    have run := runs _ reached (List.forall_mem_singleton.mpr number) (fun _ => .ok []) 0 ['a'] []
      language builtin rfl (by decide) (by decide)
    rw [← arg]
    exact run

end StepScript
