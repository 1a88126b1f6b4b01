import StepScript.Language.Builtin
import StepScript.Proofs.LetterCase
import StepScript.Proofs.Quotes
import StepScript.Proofs.Unrelated

/-! Registered methods. Of two names that differ in letter case only one can be registered, so that
a method is found by every text that is its name once the blanks around the text are gone. A name
that has blanks around it is registered as it stands, and no text is that name. -/
namespace StepScript

/-- A text that differs from a trimmed one in letter case only is trimmed. -/
theorem Text.trim_of_sameWord {t word : Text} (same : t.sameWord word = true)
    (trimmed : word.trim = word) : t.trim = t := by
  have lowered : t.trim.lower = t.lower := by
    rw [← trim_lower, beq_iff_eq.mp same, trim_lower, trimmed]
  have length : t.trim.length = t.length := by simpa [lower] using congrArg List.length lowered
  obtain ⟨before, after, cut, _⟩ := t.trim_between
  have part : t.trim <:+: t := ⟨before, after, cut.symm⟩
  exact part.eq_of_length length

/-- What a host can register. -/
inductive Registration where
  | method (method : Method)
  | type (prototype : Value) (description : Text)

namespace Language

variable {language changed : Language} {method other : Method} {name : Text}

def register (language : Language) : Registration → Except Error Language
  | .method method => language.registerMethod method
  | .type prototype description => language.registerType prototype description

/-- A registration that is refused leaves the language as it was. -/
def after (language : Language) (registration : Registration) : Language :=
  match language.register registration with
  | .ok changed => changed
  | .error _ => language

def afterAll (language : Language) (registrations : List Registration) : Language :=
  registrations.foldl after language

/-- A registered method has this name, in some letter case. -/
def Taken (language : Language) (name : Text) : Prop :=
  ∃ method ∈ language.methods, method.name.sameWord name = true

/-- No two methods have names that differ in letter case only. -/
def Distinct (language : Language) : Prop :=
  (language.methods.map fun method => method.name.lower).Nodup

theorem registerMethod_taken (taken : language.Taken method.name) :
    language.registerMethod method = .error (.duplicateRegistration method.name) :=
  if_pos (List.any_eq_true.mpr taken)

theorem registerMethod_free (free : ¬ language.Taken method.name) :
    language.registerMethod method = .ok { language with
      methods := insertOrdered (fun a b => a.name < b.name) method language.methods } :=
  if_neg (mt List.any_eq_true.mp free)

/-- A method is refused if its name is taken, and for nothing else. -/
theorem registerMethod_error_iff {e : Error} : language.registerMethod method = .error e ↔
    language.Taken method.name ∧ e = .duplicateRegistration method.name := by
  by_cases taken : language.Taken method.name
  · rw [registerMethod_taken taken]
    simp [taken, eq_comm]
  · rw [registerMethod_free taken]
    simp [taken]

theorem free_of_registerMethod (done : language.registerMethod method = .ok changed) :
    ¬ language.Taken method.name := by
  intro taken
  rw [registerMethod_taken taken] at done
  cases done

theorem registerMethod_perm (done : language.registerMethod method = .ok changed) :
    changed.methods.Perm (method :: language.methods) := by
  rw [registerMethod_free (free_of_registerMethod done)] at done
  cases done
  exact insertOrdered_perm _ _ _

theorem registerType_methods {prototype : Value} {description : Text}
    (done : language.registerType prototype description = .ok changed) :
    changed.methods = language.methods := by
  simp only [registerType] at done
  split at done
  · cases done
  · cases done
    rfl

theorem after_of_error {registration : Registration} {e : Error}
    (refused : language.register registration = .error e) :
    language.after registration = language := by
  rw [after, refused]

theorem after_of_ok {registration : Registration}
    (done : language.register registration = .ok changed) :
    language.after registration = changed := by
  rw [after, done]

section Run

/-- What a registration does to the methods: nothing, or it adds one whose name was free. -/
theorem after_methods (language : Language) (registration : Registration) :
    (language.after registration).methods = language.methods ∨
      ∃ method, ¬ language.Taken method.name ∧
        (language.after registration).methods.Perm (method :: language.methods) := by
  cases done : language.register registration with
  | error e => exact .inl (congrArg methods (after_of_error done))
  | ok changed =>
    rw [after_of_ok done]
    cases registration with
    | method method => exact .inr ⟨method, free_of_registerMethod done, registerMethod_perm done⟩
    | type prototype description => exact .inl (registerType_methods done)

theorem mem_after (member : method ∈ language.methods) (registration : Registration) :
    method ∈ (language.after registration).methods := by
  rcases language.after_methods registration with same | ⟨added, _, perm⟩
  · rwa [same]
  · exact perm.mem_iff.mpr (List.mem_cons_of_mem _ member)

theorem Distinct.after (distinct : language.Distinct) (registration : Registration) :
    (language.after registration).Distinct := by
  rcases language.after_methods registration with same | ⟨added, free, perm⟩
  · rwa [Distinct, same]
  · refine (perm.map _).nodup_iff.mpr (List.nodup_cons.mpr ⟨?_, distinct⟩)
    rintro taken
    obtain ⟨method, member, same⟩ := List.mem_map.mp taken
    exact free ⟨method, member, beq_iff_eq.mpr same⟩

theorem mem_afterAll (member : method ∈ language.methods) (registrations : List Registration) :
    method ∈ (language.afterAll registrations).methods := by
  induction registrations generalizing language with
  | nil => exact member
  | cons registration more ih => exact ih (mem_after member registration)

theorem Distinct.afterAll (distinct : language.Distinct) (registrations : List Registration) :
    (language.afterAll registrations).Distinct := by
  induction registrations generalizing language with
  | nil => exact distinct
  | cons registration more ih => exact ih (distinct.after registration)

end Run

/-- Names that are the same word are the names of the same method. -/
theorem Distinct.eq_of_sameWord (distinct : language.Distinct) (member : method ∈ language.methods)
    (otherMember : other ∈ language.methods) (same : method.name.sameWord other.name = true) :
    method = other :=
  List.inj_on_of_nodup_map distinct member otherMember (beq_iff_eq.mp same)

theorem sameWord_of_findMethod? (found : language.findMethod? name = some method) :
    method.name.sameWord name.trim = true :=
  List.find?_some (p := fun method : Method => method.name.sameWord name.trim) found

/-- A text finds the method whose name it is, without the blanks around it. -/
theorem Distinct.findMethod?_iff (distinct : language.Distinct) :
    language.findMethod? name = some method ↔
      method ∈ language.methods ∧ method.name.sameWord name.trim = true := by
  constructor
  · intro found
    exact ⟨List.mem_of_find?_eq_some found, sameWord_of_findMethod? found⟩
  · rintro ⟨member, same⟩
    cases found : language.findMethod? name with
    | none => exact absurd same (by simpa using List.find?_eq_none.mp found method member)
    | some first =>
      have words : first.name.sameWord method.name = true :=
        beq_iff_eq.mpr ((beq_iff_eq.mp (sameWord_of_findMethod? found)).trans
          (beq_iff_eq.mp same).symm)
      rw [distinct.eq_of_sameWord (List.mem_of_find?_eq_some found) member words]

theorem isSome_findMethod? : (language.findMethod? name).isSome ↔ language.Taken name.trim := by
  rw [findMethod?, List.find?_isSome]
  rfl

theorem method_eq_ok : language.method name = .ok method ↔
    language.findMethod? name = some method := by
  unfold Language.method
  cases language.findMethod? name with
  | none => simp
  | some found => simp

/-- The method is supported under its name, and the name gives the method in any letter case and
with any blanks around it. -/
structure Finds (language : Language) (method : Method) : Prop where
  supported : (language.findMethod? method.name).isSome
  found : ∀ left spelling right : Text, (∀ c ∈ left, isBlank c = true) →
    (∀ c ∈ right, isBlank c = true) → spelling.sameWord method.name = true →
      language.method (left ++ spelling ++ right) = .ok method

/-- The method is refused as a duplicate, and nothing changes. -/
structure Refuses (language : Language) (method : Method) : Prop where
  error : language.registerMethod method = .error (.duplicateRegistration method.name)
  unchanged : language.after (.method method) = language

theorem refuses_iff : language.Refuses method ↔ language.Taken method.name := by
  constructor
  · intro refuses
    exact (registerMethod_error_iff.mp refuses.error).1
  · intro taken
    exact ⟨registerMethod_taken taken, after_of_error (registerMethod_taken taken)⟩

section Registered

variable (distinct : language.Distinct) (member : method ∈ language.methods)

include distinct member

theorem method_iff_of_mem :
    language.method name = .ok method ↔ method.name.sameWord name.trim = true := by
  rw [method_eq_ok, distinct.findMethod?_iff]
  exact and_iff_right member

/-- What a text finds has no blanks around its name. -/
theorem trim_of_found (found : language.method name = .ok method) :
    method.name.trim = method.name :=
  Text.trim_of_sameWord ((method_iff_of_mem distinct member).mp found) name.trim_trim

theorem finds_iff : language.Finds method ↔ method.name.trim = method.name := by
  constructor
  · intro finds
    have found := finds.found [] method.name [] (List.forall_mem_nil _) (List.forall_mem_nil _)
      (beq_self_eq_true _)
    exact trim_of_found distinct member found
  · intro trimmed
    refine ⟨?_, fun left spelling right blankLeft blankRight same => ?_⟩
    · refine isSome_findMethod?.mpr ⟨method, member, ?_⟩
      rw [trimmed]
      exact beq_self_eq_true _
    · rw [method_iff_of_mem distinct member, Text.trim_pad blankLeft blankRight,
        Text.trim_of_sameWord same trimmed]
      exact beq_iff_eq.mpr (beq_iff_eq.mp same).symm

end Registered
end Language

open StepScript.Language in
/-- Whatever has been registered before a method and whatever is registered after it, the method is
supported and found under its name, in any letter case and with any blanks around it, if and only if
the name has no blanks around it itself; a name that has is found by no text at all. A second method
is refused, and nothing changes, if and only if its name is taken up to letter case, so never for
the blanks around it. -/
theorem registered_method_is_found_iff {language : Language} (empty : language.methods = [])
    (earlier later : List Registration) {method : Method} {registered : Language}
    (done : (language.afterAll earlier).registerMethod method = .ok registered) :
    let after := registered.afterAll later
    (after.Finds method ↔ method.name.trim = method.name) ∧
      (∀ query, after.method query = .ok method ↔ method.name.sameWord query.trim = true) ∧
      (method.name.trim ≠ method.name → ∀ query, after.method query ≠ .ok method) ∧
      ∀ second : Method, (after.Refuses second ↔ after.Taken second.name) ∧
        (method.name.sameWord second.name = true → after.Refuses second) := by
  intro after
  have fresh : language.Distinct := by
    rw [Distinct, empty]
    exact .nil
  have distinct : after.Distinct := by
    have took : (language.afterAll earlier).after (.method method) = registered := after_of_ok done
    have next := (fresh.afterAll earlier).after (.method method)
    rw [took] at next
    exact next.afterAll later
  have member : method ∈ after.methods :=
    mem_afterAll ((registerMethod_perm done).mem_iff.mpr List.mem_cons_self) later
  refine ⟨finds_iff distinct member, fun query => method_iff_of_mem distinct member, ?_, ?_⟩
  · intro padded query found
    exact padded (trim_of_found distinct member found)
  · intro second
    exact ⟨refuses_iff, fun same => refuses_iff.mpr ⟨method, member, same⟩⟩

open StepScript.Language in
/-- A method between others, looked up in capitals with blanks around them. -/
theorem method_is_found_in_capitals :
    let language : Language := ⟨"Demo".toList, [], []⟩
    let earlier : List Registration := [.type (.int 0) [], .method Builtin.messageBox]
    let later : List Registration :=
      [.method { Builtin.messageBox with name := " generic.log".toList }]
    let log : Method := { Builtin.messageBox with name := "Generic.Log".toList }
    ∃ registered, (language.afterAll earlier).registerMethod log = .ok registered ∧
      (registered.afterAll later).method "\tGENERIC.LOG ".toList = .ok log := by
  intro language earlier later log
  refine ⟨_, rfl, ?_⟩
  have empty : language.methods = [] := rfl
  have done : (language.afterAll earlier).registerMethod log = .ok _ := rfl
  obtain ⟨_, finds, _⟩ := registered_method_is_found_iff empty earlier later done
  exact (finds _).mpr (by decide)

open StepScript.Language in
/-- A method is registered under a name that begins with a blank, and is not supported under it. A
second method is registered whose name is that of the first but for a blank. -/
theorem padded_name_is_not_found :
    (¬ ∀ (method : Method) (registered : Language),
      Language.registerMethod ⟨[], [], []⟩ method = .ok registered → registered.Finds method) ∧
    ¬ ∀ (method second : Method) (registered : Language),
      Language.registerMethod ⟨[], [], []⟩ method = .ok registered →
        second.name.trim.sameWord method.name.trim = true → registered.Refuses second := by
  let plain : Method := { Builtin.messageBox with name := "Log".toList }
  let padded : Method := { Builtin.messageBox with name := " Log".toList }
  constructor
  · intro finds
    have supported := (finds padded _ rfl).supported
    exact absurd supported (by decide)
  · intro refuses
    have refused := (refuses plain padded _ rfl (by decide)).error
    cases refused

end StepScript
