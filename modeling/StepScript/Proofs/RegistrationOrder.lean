import StepScript.Proofs.Registration

/-! The order of registrations. A language holds what was registered and not refused, each entry
once, methods by name and types by kind. The same registrations in any order, with any refused ones
between them, make the same language and the same manifest, in whatever order its entries are
stored before they are sorted. -/
namespace StepScript

namespace Registration

def method? : Registration → Option Method
  | .method entry => some entry
  | .type _ _ => none

def type? : Registration → Option ValueType
  | .method _ => none
  | .type prototype description => some ⟨prototype, description⟩

/-- The methods among the registrations. -/
def methods (registrations : List Registration) : List Method :=
  registrations.filterMap method?

/-- The types among the registrations. -/
def types (registrations : List Registration) : List ValueType :=
  registrations.filterMap type?

end Registration

namespace Language

variable {language changed : Language} {registration : Registration}
  {registrations others : List Registration}

/-- The registrations that are not refused, one after another. -/
def accepted (language : Language) : List Registration → List Registration
  | [] => []
  | registration :: more =>
    match language.register registration with
    | .ok changed => registration :: changed.accepted more
    | .error _ => language.accepted more

section Step

/-- No entry of the language has the key of the registration. -/
def Free (language : Language) : Registration → Prop
  | .method method => ¬ language.Taken method.name
  | .type prototype _ => ∀ type ∈ language.types, type.kind ≠ prototype.kind

/-- A registration that is not refused puts its entry in order among the others. -/
inductive Enters (language : Language) : Registration → Language → Prop where
  | method {method : Method} (free : language.Free (.method method)) :
    Enters language (.method method) { language with
      methods := insertOrdered (fun a b => a.name < b.name) method language.methods }
  | type {prototype : Value} {description : Text}
      (free : language.Free (.type prototype description)) :
    Enters language (.type prototype description) { language with
      types := insertOrdered (fun a b => a.kind.rank < b.kind.rank) ⟨prototype, description⟩
        language.types }

theorem enters_of_register (done : language.register registration = .ok changed) :
    language.Enters registration changed := by
  cases registration with
  | method method =>
    have free := free_of_registerMethod done
    rw [register, registerMethod_free free] at done
    cases done
    exact .method free
  | type prototype description =>
    simp only [register, registerType] at done
    split at done
    · cases done
    · rename_i free
      cases done
      refine .type fun type member same => free ?_
      exact List.any_eq_true.mpr ⟨type, member, decide_eq_true same⟩

theorem not_free_of_register {e : Error} (refused : language.register registration = .error e) :
    ¬ language.Free registration := by
  intro free
  cases registration with
  | method method => exact free (registerMethod_error_iff.mp refused).1
  | type prototype description =>
    simp only [register, registerType] at refused
    split at refused
    · rename_i taken
      obtain ⟨other, member, same⟩ := List.any_eq_true.mp taken
      exact free other member (of_decide_eq_true same)
    · cases refused

end Step

section Order

/-- Methods ascend by name and types by kind, and names differ in more than letter case. -/
structure InOrder (language : Language) : Prop where
  distinct : language.Distinct
  methods : Ascends (fun method : Method => method.name) language.methods
  types : Ascends (fun type : ValueType => type.kind.rank) language.types

theorem InOrder.enters (inOrder : language.InOrder)
    (enters : language.Enters registration changed) : changed.InOrder := by
  cases enters with
  | @method method free =>
    refine ⟨?_, inOrder.methods.insertOrdered (fun _ _ => decide_eq_true_iff) ?_, inOrder.types⟩
    · have took : language.after (.method method) = _ := after_of_ok (registerMethod_free free)
      rw [← took]
      exact inOrder.distinct.after _
    · rintro other member same
      refine free ⟨other, member, ?_⟩
      rw [same]
      exact beq_self_eq_true _
  | type free =>
    refine ⟨inOrder.distinct, inOrder.methods,
      inOrder.types.insertOrdered (fun _ _ => decide_eq_true_iff) ?_⟩
    intro other member same
    exact free other member (Kind.rank_injective same)

theorem InOrder.afterAll (inOrder : language.InOrder) (registrations : List Registration) :
    (language.afterAll registrations).InOrder := by
  induction registrations generalizing language with
  | nil => exact inOrder
  | cons registration more ih =>
    refine @ih (language.after registration) ?_
    cases done : language.register registration with
    | error e => rwa [after_of_error done]
    | ok changed =>
      rw [after_of_ok done]
      exact inOrder.enters (enters_of_register done)

end Order

section Accepted

theorem afterAll_cons (language : Language) (registration : Registration)
    (more : List Registration) :
    language.afterAll (registration :: more) = (language.after registration).afterAll more :=
  rfl

theorem accepted_cons_ok (done : language.register registration = .ok changed)
    (more : List Registration) :
    language.accepted (registration :: more) = registration :: changed.accepted more := by
  rw [accepted, done]

theorem length_accepted_le (language : Language) (registrations : List Registration) :
    (language.accepted registrations).length ≤ registrations.length := by
  fun_induction accepted language registrations with
  | case1 language => exact Nat.le_refl 0
  | case2 language registration more changed done ih => exact Nat.succ_le_succ ih
  | case3 language registration more e refused ih => exact Nat.le_succ_of_le ih

/-- Registrations that are refused leave no trace. -/
theorem afterAll_accepted (language : Language) (registrations : List Registration) :
    language.afterAll (language.accepted registrations) = language.afterAll registrations := by
  fun_induction accepted language registrations with
  | case1 language => rfl
  | case2 language registration more changed done ih =>
    rw [afterAll_cons, afterAll_cons, after_of_ok done, ih]
  | case3 language registration more e refused ih => rw [afterAll_cons, after_of_error refused, ih]

theorem accepted_accepted (language : Language) (registrations : List Registration) :
    language.accepted (language.accepted registrations) = language.accepted registrations := by
  fun_induction accepted language registrations with
  | case1 language => rfl
  | case2 language registration more changed done ih => rw [accepted_cons_ok done, ih]
  | case3 language registration more e refused ih => exact ih

theorem Enters.methods_perm (enters : language.Enters registration changed)
    (more : List Registration) :
    (Registration.methods more ++ changed.methods).Perm
      (Registration.methods (registration :: more) ++ language.methods) := by
  cases enters with
  | @method method =>
    have inserted := insertOrdered_perm (fun a b => a.name < b.name) method language.methods
    exact (inserted.append_left _).trans List.perm_middle
  | type => exact .refl _

theorem Enters.types_perm (enters : language.Enters registration changed)
    (more : List Registration) :
    (Registration.types more ++ changed.types).Perm
      (Registration.types (registration :: more) ++ language.types) := by
  cases enters with
  | method => exact .refl _
  | @type prototype description =>
    have inserted := insertOrdered_perm (fun a b => a.kind.rank < b.kind.rank)
      (⟨prototype, description⟩ : ValueType) language.types
    exact (inserted.append_left _).trans List.perm_middle

/-- The language holds the entries of another one and those of the registrations, each once. -/
structure Gathers (language base : Language) (registrations : List Registration) : Prop where
  name : language.name = base.name
  methods : language.methods.Perm (Registration.methods registrations ++ base.methods)
  types : language.types.Perm (Registration.types registrations ++ base.types)

theorem gathers_afterAll (language : Language) (registrations : List Registration) :
    (language.afterAll registrations).Gathers language (language.accepted registrations) := by
  fun_induction accepted language registrations with
  | case1 language => exact ⟨rfl, .refl _, .refl _⟩
  | case2 language registration more changed done ih =>
    rw [afterAll_cons, after_of_ok done]
    have enters := enters_of_register done
    have name : changed.name = language.name := by cases enters <;> rfl
    exact ⟨ih.name.trans name, ih.methods.trans (enters.methods_perm _),
      ih.types.trans (enters.types_perm _)⟩
  | case3 language registration more e refused ih => rwa [afterAll_cons, after_of_error refused]

end Accepted

section Compatible

/-- No two of the registrations have one key, and none has that of an entry of the language. -/
structure Compatible (language : Language) (registrations : List Registration) : Prop where
  methods : ((Registration.methods registrations ++ language.methods).map fun method =>
    method.name.lower).Nodup
  types : ((Registration.types registrations ++ language.types).map ValueType.kind).Nodup

theorem Compatible.perm (compatible : language.Compatible registrations)
    (perm : others.Perm registrations) : language.Compatible others where
  methods := by
    have same := (perm.filterMap Registration.method?).append_right language.methods
    exact (same.map _).nodup_iff.mpr compatible.methods
  types := by
    have same := (perm.filterMap Registration.type?).append_right language.types
    exact (same.map _).nodup_iff.mpr compatible.types

theorem Enters.compatible_iff (enters : language.Enters registration changed)
    (more : List Registration) :
    changed.Compatible more ↔ language.Compatible (registration :: more) := by
  have methods := ((enters.methods_perm more).map fun method => method.name.lower).nodup_iff
  have types := ((enters.types_perm more).map ValueType.kind).nodup_iff
  constructor
  · rintro ⟨left, right⟩
    exact ⟨methods.mp left, types.mp right⟩
  · rintro ⟨left, right⟩
    exact ⟨methods.mpr left, types.mpr right⟩

theorem Compatible.free {more : List Registration}
    (compatible : language.Compatible (registration :: more)) : language.Free registration := by
  cases registration with
  | method method =>
    rintro ⟨other, member, same⟩
    refine (List.nodup_cons.mp compatible.methods).1 (List.mem_map.mpr ⟨other, ?_, ?_⟩)
    · exact List.mem_append_right _ member
    · exact beq_iff_eq.mp same
  | type prototype description =>
    intro other member same
    refine (List.nodup_cons.mp compatible.types).1 (List.mem_map.mpr ⟨other, ?_, same⟩)
    exact List.mem_append_right _ member

theorem InOrder.compatible_nil (inOrder : language.InOrder) : language.Compatible [] where
  methods := inOrder.distinct
  types := by
    have ranks : ((language.types.map ValueType.kind).map Kind.rank).Nodup := by
      rw [List.map_map]
      exact inOrder.types.keys_nodup
    exact ranks.of_map

/-- Registrations are all accepted if their keys are free and differ. -/
theorem InOrder.accepted_eq_self_iff (inOrder : language.InOrder)
    (registrations : List Registration) :
    language.accepted registrations = registrations ↔ language.Compatible registrations := by
  fun_induction accepted language registrations with
  | case1 language => exact iff_of_true rfl inOrder.compatible_nil
  | case2 language registration more changed done ih =>
    have enters := enters_of_register done
    rw [← enters.compatible_iff, ← ih (inOrder.enters enters)]
    exact List.cons_inj_right registration
  | case3 language registration more e refused ih =>
    refine iff_of_false (fun same => ?_) fun compatible =>
      not_free_of_register refused compatible.free
    have shorter := language.length_accepted_le more
    rw [same] at shorter
    exact Nat.not_succ_le_self _ shorter

/-- What was accepted is accepted in any other order. -/
theorem InOrder.accepted_of_perm (inOrder : language.InOrder)
    (perm : others.Perm (language.accepted registrations)) : language.accepted others = others := by
  have compatible : language.Compatible (language.accepted registrations) :=
    (inOrder.accepted_eq_self_iff _).mp (language.accepted_accepted registrations)
  exact (inOrder.accepted_eq_self_iff _).mpr (compatible.perm perm)

/-- What a language becomes depends on what was accepted and not on its order. -/
theorem InOrder.afterAll_eq_of_perm (inOrder : language.InOrder)
    (perm : (language.accepted others).Perm (language.accepted registrations)) :
    language.afterAll others = language.afterAll registrations := by
  have left := language.gathers_afterAll others
  have right := language.gathers_afterAll registrations
  have ordered := inOrder.afterAll others
  have orderedToo := inOrder.afterAll registrations
  have methods : (language.afterAll others).methods = (language.afterAll registrations).methods := by
    have same := (perm.filterMap Registration.method?).append_right language.methods
    exact ordered.methods.eq_of_perm orderedToo.methods
      (left.methods.trans (same.trans right.methods.symm))
  have types : (language.afterAll others).types = (language.afterAll registrations).types := by
    have same := (perm.filterMap Registration.type?).append_right language.types
    exact ordered.types.eq_of_perm orderedToo.types
      (left.types.trans (same.trans right.types.symm))
  have name := left.name.trans right.name.symm
  cases afterOthers : language.afterAll others
  cases afterAll : language.afterAll registrations
  rw [afterOthers, afterAll] at methods types name
  cases methods
  cases types
  cases name
  rfl

end Compatible

theorem eq_of_empty {name : Text} (fresh : Language.empty name = .ok language) :
    language = ⟨name.trim, [], []⟩ := by
  simp only [Language.empty, checkedName] at fresh
  split at fresh
  · cases fresh
  · cases fresh
    rfl

/-- The language lists these entries, each once, methods by name and types by kind. -/
structure Lists (language : Language) (entries : List Registration) : Prop where
  methods : language.methods.Perm (Registration.methods entries)
  types : language.types.Perm (Registration.types entries)
  byName : Ascends (fun method : Method => method.name) language.methods
  byKind : Ascends (fun type : ValueType => type.kind.rank) language.types

end Language

/-- The manifest of entries that are stored in any order. -/
def Manifest.ofStored (name : Text) (types : List ValueType) (methods : List Method) : Manifest where
  name := name
  preceders := Preceder.all.map Preceder.keyword
  types := (types.mergeSort fun a b => a.kind.rank ≤ b.kind.rank).map fun t =>
    (t.name, t.description)
  methods := (methods.mergeSort fun a b => a.name ≤ b.name).map Method.toSignature

theorem Language.Lists.manifest {language : Language} {entries : List Registration}
    (lists : language.Lists entries) {types : List ValueType} {methods : List Method}
    (storedTypes : types.Perm (Registration.types entries))
    (storedMethods : methods.Perm (Registration.methods entries)) :
    language.manifest = .ofStored language.name types methods := by
  have sortedTypes := lists.byKind.mergeSort_eq (storedTypes.trans lists.types.symm)
  have sortedMethods := lists.byName.mergeSort_eq (storedMethods.trans lists.methods.symm)
  rw [Manifest.ofStored, sortedTypes, sortedMethods]
  rfl

open StepScript.Language in
/-- Registrations made on an empty language. They are all accepted if and only if no two of them
have one key. Those that are refused leave no trace. The others are listed, each entry once, methods
in ascending order of their names and types in that of their kinds, and so does the manifest, in
whatever order the entries are stored. Made in any other order they are all accepted again; and any
registrations of which the same ones are accepted, in whatever order, make the same language, with
the same methods, types and manifest. -/
theorem registration_order_is_immaterial {name : Text} {language : Language}
    (fresh : Language.empty name = .ok language) (registrations : List Registration) :
    let entries := language.accepted registrations
    let done := language.afterAll registrations
    (entries = registrations ↔ language.Compatible registrations) ∧
      language.afterAll entries = done ∧
      done.Lists entries ∧
      (∀ types methods, types.Perm (Registration.types entries) →
        methods.Perm (Registration.methods entries) →
          done.manifest = .ofStored name.trim types methods) ∧
      (∀ others : List Registration, others.Perm entries → language.accepted others = others) ∧
      ∀ others, (language.accepted others).Perm entries →
        language.afterAll others = done ∧ (language.afterAll others).manifest = done.manifest := by
  intro entries done
  cases eq_of_empty fresh
  have inOrder : Language.InOrder ⟨name.trim, [], []⟩ := ⟨.nil, .nil, .nil⟩
  have gathers : done.Gathers _ entries := gathers_afterAll _ registrations
  have ordered : done.InOrder := inOrder.afterAll registrations
  have lists : done.Lists entries :=
    ⟨by simpa using gathers.methods, by simpa using gathers.types, ordered.methods, ordered.types⟩
  refine ⟨inOrder.accepted_eq_self_iff _, afterAll_accepted _ _, lists, ?_,
    fun others => inOrder.accepted_of_perm, ?_⟩
  · intro types methods storedTypes storedMethods
    rw [lists.manifest storedTypes storedMethods, gathers.name]
  · intro others perm
    have same : Language.afterAll _ others = done := inOrder.afterAll_eq_of_perm perm
    exact ⟨same, by rw [same]⟩

open StepScript.Language in
/-- Two methods and two types in two orders, with registrations between them that are refused. -/
theorem refused_between_others :
    let log : Method := { Builtin.messageBox with name := "Generic.Log".toList }
    let again : Method := { log with name := "GENERIC.log".toList }
    let language : Language := ⟨"Demo".toList, [], []⟩
    let registrations : List Registration :=
      [.type (.string []) [], .method Builtin.messageBox, .method log, .method again,
        .type (.int 0) []]
    let others : List Registration :=
      [.type (.int 0) [], .method log, .type (.int 1) [], .method Builtin.messageBox,
        .method again, .type (.string []) []]
    (language.afterAll others).manifest = (language.afterAll registrations).manifest ∧
      (language.afterAll registrations).methods.map (fun method => method.name) =
        ["Generic.Log".toList, "Generic.MessageBox".toList] := by
  intro log again language registrations others
  have fresh : Language.empty "Demo".toList = .ok language := rfl
  have reversed : language.accepted others = (language.accepted registrations).reverse := rfl
  obtain ⟨_, _, _, _, _, same⟩ := registration_order_is_immaterial fresh registrations
  refine ⟨(same others ?_).2, rfl⟩
  rw [reversed]
  exact List.reverse_perm _

end StepScript
