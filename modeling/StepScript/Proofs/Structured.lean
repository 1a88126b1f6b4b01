import StepScript.Proofs.Cursor

/-! A structured reading of scripts: lines one after another, a `while` line with its block as one
construct, no cursor and no frame. A loop need not end, so the reading is bounded by fuel; what
enough fuel gives is its limit, which obeys the same equations with no fuel in them. -/
namespace StepScript.Structured

/-- How lines come to an end. -/
inductive Ending where
  | completed
  | broken
  | failed (failure : Failure)

def Ending.status : Ending → Status
  | .completed => .completed
  | .broken => .broken
  | .failed _ => .failed

def Ending.failure? : Ending → Option Failure
  | .failed failure => some failure
  | _ => none

/-- What lines leave and show, and how many steps they take: one for each line that is executed, and
one for a pass over a block that has none. -/
structure Outcome where
  scope : Scope
  entropy : Entropy
  shown : List Message
  steps : Nat
  ending : Ending

/-- The outcome with what came before it. -/
def Outcome.after (outcome : Outcome) (shown : List Message) (steps : Nat) : Outcome :=
  { outcome with shown := shown ++ outcome.shown, steps := steps + outcome.steps }

/-- The lines of a block, the first of them with number `line`. A block holds no other. -/
def runBlock (language : Language) (line : Nat) : List Text → Entropy → Scope → Outcome
  | [], entropy, scope => ⟨scope, entropy, [], 0, .completed⟩
  | raw :: rest, entropy, scope =>
    if Line.isSkipped raw then runBlock language (line + 1) rest entropy scope
    else
      let done := Action.perform language entropy scope raw
      match done.result with
      | .ok (.update scope) =>
        (runBlock language (line + 1) rest done.entropy scope).after done.shown 1
      | .ok .leave => ⟨scope, done.entropy, done.shown, 1, .broken⟩
      | .ok (.loop _) => ⟨scope, done.entropy, done.shown, 1, .failed ⟨line, .nestedLoop⟩⟩
      | .error e => ⟨scope, done.entropy, done.shown, 1, .failed ⟨line, e⟩⟩

/-- A `while` line by its number, with its condition, the number of the first line of its block and
the block. -/
structure Loop where
  line : Nat
  condition : Text
  start : Nat
  block : List Text

/-- The scope that a pass leaves, without the names it declared. -/
def leaveBlock (outer inner : Scope) : Scope :=
  { inner with locals := inner.locals.filter fun entry => decide (outer.locals.Binds entry.1) }

/-- What a loop comes to once a pass over its block has ended, where `again` reads the loop anew. -/
def finishPass (again : Entropy → Scope → Option Outcome) (outer : Scope) (pass : Outcome) :
    Option Outcome :=
  let scope := leaveBlock outer pass.scope
  let steps := max 1 pass.steps
  match pass.ending with
  | .completed => (again pass.entropy scope).map (·.after pass.shown steps)
  | .broken => some ⟨scope, pass.entropy, pass.shown, steps, .completed⟩
  | .failed failure => some ⟨scope, pass.entropy, pass.shown, steps, .failed failure⟩

/-- Passes over the block, each in a copy of the outer scope, while the condition holds in the outer
scope. -/
def loopWithin (language : Language) (loop : Loop) : Nat → Entropy → Scope → Option Outcome
  | 0, _, _ => none
  | fuel + 1, entropy, scope =>
    match Script.holds scope loop.condition with
    | .error e => some ⟨scope, entropy, [], 0, .failed ⟨loop.line, e⟩⟩
    | .ok false => some ⟨scope, entropy, [], 0, .completed⟩
    | .ok true =>
      finishPass (loopWithin language loop fuel) scope
        (runBlock language loop.start loop.block entropy scope)

/-- What a script comes to once a loop in it has ended, where `onward` reads the lines from an index
on. -/
def goOn (onward : Nat → Entropy → Scope → Option Outcome) (resume : Nat) (loop : Outcome) :
    Option Outcome :=
  match loop.ending with
  | .completed =>
    (onward resume loop.entropy loop.scope).map (·.after loop.shown loop.steps)
  | _ => some loop

/-- What a script comes to by the action that the line at `index` asks for. -/
def actOn (runLoop : Loop → Entropy → Scope → Option Outcome)
    (onward : Nat → Entropy → Scope → Option Outcome) (lines : List Text) (index : Nat)
    (entropy : Entropy) (scope : Scope) : Action → Option Outcome
  | .update scope => onward (index + 1) entropy scope
  | .leave => some ⟨scope, entropy, [], 0, .broken⟩
  | .loop condition =>
    match Block.find lines index with
    | .error e => some ⟨scope, entropy, [], 0, .failed ⟨index + 1, e⟩⟩
    | .ok (opening, closing) =>
      (runLoop ⟨index + 1, condition, opening + 2, (lines.take closing).drop (opening + 1)⟩
        entropy scope).bind (goOn onward (closing + 1))

/-- The lines from an index on. -/
def fromWithin (language : Language) (lines : List Text) :
    Nat → Nat → Entropy → Scope → Option Outcome
  | 0, _, _, _ => none
  | fuel + 1, index, entropy, scope =>
    match lines[index]? with
    | none => some ⟨scope, entropy, [], 0, .completed⟩
    | some raw =>
      if Line.isSkipped raw then fromWithin language lines fuel (index + 1) entropy scope
      else
        let done := Action.perform language entropy scope raw
        match done.result with
        | .error e => some ⟨scope, done.entropy, done.shown, 1, .failed ⟨index + 1, e⟩⟩
        | .ok action =>
          (actOn (loopWithin language · fuel) (fromWithin language lines fuel) lines index
            done.entropy scope action).map (·.after done.shown 1)

/-- A whole script. There is no outcome where the fuel does not suffice. -/
def runWithin (fuel : Nat) (language : Language) (lines : List Text) (entropy : Entropy)
    (scope : Scope) : Option Outcome :=
  fromWithin language lines fuel 0 entropy scope

section Limit

variable {α β : Type} {less more : Option α} {attempt : Nat → Option α} {a : α}

/-- Where there is a value it stays. -/
def Extends (less more : Option α) : Prop :=
  ∀ a, less = some a → more = some a

theorem Extends.refl (value? : Option α) : Extends value? value? :=
  fun _ found => found

theorem Extends.map (h : Extends less more) (f : α → β) : Extends (less.map f) (more.map f) := by
  intro b mapped
  obtain ⟨a, found, rfl⟩ := Option.map_eq_some_iff.mp mapped
  rw [h a found, Option.map_some]

theorem Extends.bind {f g : α → Option β} (h : Extends less more)
    (onward : ∀ a, Extends (f a) (g a)) : Extends (less.bind f) (more.bind g) := by
  intro b found
  obtain ⟨a, first, second⟩ := Option.bind_eq_some_iff.mp found
  rw [h a first, Option.bind_some]
  exact onward a b second

/-- More fuel does not change what less has given. -/
def Rising (attempt : Nat → Option α) : Prop :=
  ∀ fuel, Extends (attempt fuel) (attempt (fuel + 1))

/-- What enough fuel gives. -/
noncomputable def limit (attempt : Nat → Option α) : Option α :=
  open Classical in (Nat.rfindOpt attempt).toOption

theorem Rising.enough (rising : Rising attempt) {fuel enough : Nat} (least : fuel ≤ enough)
    (found : attempt fuel = some a) : attempt enough = some a := by
  induction enough, least using Nat.le_induction with
  | base => exact found
  | succ enough _ ih => exact rising enough a ih

theorem Rising.limit_eq_some (rising : Rising attempt) :
    limit attempt = some a ↔ ∃ fuel, attempt fuel = some a := by
  classical
  refine Part.toOption_eq_some_iff.trans (Nat.rfindOpt_mono ?_)
  intro a fuel enough least found
  exact rising.enough least found

theorem Rising.limit_succ (rising : Rising attempt) :
    limit attempt = limit fun fuel => attempt (fuel + 1) := by
  have later : Rising fun fuel => attempt (fuel + 1) := fun fuel => rising (fuel + 1)
  ext a
  rw [rising.limit_eq_some, later.limit_eq_some]
  constructor
  · rintro ⟨fuel, found⟩
    exact ⟨fuel, rising fuel a found⟩
  · rintro ⟨fuel, found⟩
    exact ⟨fuel + 1, found⟩

theorem limit_const (value? : Option α) : limit (fun _ => value?) = value? := by
  ext a
  rw [Rising.limit_eq_some fun _ => .refl value?]
  exact exists_const Nat

theorem limit_map (rising : Rising attempt) (f : α → β) :
    (limit fun fuel => (attempt fuel).map f) = (limit attempt).map f := by
  ext b
  rw [Rising.limit_eq_some fun fuel => (rising fuel).map f]
  simp only [Option.map_eq_some_iff, rising.limit_eq_some]
  exact ⟨fun ⟨fuel, a, found⟩ => ⟨a, ⟨fuel, found.1⟩, found.2⟩,
    fun ⟨a, ⟨fuel, found⟩, same⟩ => ⟨fuel, a, found, same⟩⟩

/-- The first part and what follows it need the larger of their two amounts of fuel. -/
theorem limit_bind {onward : Nat → α → Option β} (rising : Rising attempt)
    (onwardRising : ∀ a, Rising (onward · a)) :
    (limit fun fuel => (attempt fuel).bind (onward fuel)) =
      (limit attempt).bind fun a => limit (onward · a) := by
  ext b
  rw [Rising.limit_eq_some fun fuel => (rising fuel).bind fun a => onwardRising a fuel]
  simp only [Option.bind_eq_some_iff, rising.limit_eq_some, (onwardRising _).limit_eq_some]
  constructor
  · rintro ⟨fuel, a, first, second⟩
    exact ⟨a, ⟨fuel, first⟩, fuel, second⟩
  · rintro ⟨a, ⟨fuel, first⟩, other, second⟩
    exact ⟨max fuel other, a, rising.enough (le_max_left fuel other) first,
      (onwardRising a).enough (le_max_right fuel other) second⟩

end Limit

variable {language : Language} {lines : List Text} {entropy : Entropy} {scope : Scope}

@[simp] theorem Outcome.after_nil (outcome : Outcome) : outcome.after [] 0 = outcome := by
  simp [Outcome.after]

theorem finishPass_extends {less more : Entropy → Scope → Option Outcome}
    (h : ∀ entropy scope, Extends (less entropy scope) (more entropy scope)) (outer : Scope)
    (pass : Outcome) : Extends (finishPass less outer pass) (finishPass more outer pass) := by
  unfold finishPass
  cases pass.ending with
  | completed => exact (h _ _).map _
  | broken => exact .refl _
  | failed failure => exact .refl _

theorem loopWithin_extends (language : Language) (fuel : Nat) (loop : Loop) (entropy : Entropy)
    (scope : Scope) :
    Extends (loopWithin language loop fuel entropy scope)
      (loopWithin language loop (fuel + 1) entropy scope) := by
  induction fuel generalizing entropy scope with
  | zero => exact fun _ absurd => nomatch absurd
  | succ fuel ih =>
    simp only [loopWithin]
    split
    · exact .refl _
    · exact .refl _
    · exact finishPass_extends ih scope _

theorem loopWithin_rising (language : Language) (loop : Loop) (entropy : Entropy) (scope : Scope) :
    Rising (loopWithin language loop · entropy scope) :=
  fun fuel => loopWithin_extends language fuel loop entropy scope

theorem goOn_extends {less more : Nat → Entropy → Scope → Option Outcome}
    (h : ∀ index entropy scope, Extends (less index entropy scope) (more index entropy scope))
    (resume : Nat) (loop : Outcome) : Extends (goOn less resume loop) (goOn more resume loop) := by
  unfold goOn
  cases loop.ending with
  | completed => exact (h _ _ _).map _
  | broken => exact .refl _
  | failed failure => exact .refl _

theorem actOn_extends {lessLoop moreLoop : Loop → Entropy → Scope → Option Outcome}
    {less more : Nat → Entropy → Scope → Option Outcome}
    (loops : ∀ loop entropy scope,
      Extends (lessLoop loop entropy scope) (moreLoop loop entropy scope))
    (h : ∀ index entropy scope, Extends (less index entropy scope) (more index entropy scope))
    (lines : List Text) (index : Nat) (entropy : Entropy) (scope : Scope) (action : Action) :
    Extends (actOn lessLoop less lines index entropy scope action)
      (actOn moreLoop more lines index entropy scope action) := by
  cases action with
  | update scope => exact h (index + 1) entropy scope
  | leave => exact .refl _
  | loop condition =>
    simp only [actOn]
    cases Block.find lines index with
    | error e => exact .refl _
    | ok braces => exact (loops _ entropy scope).bind fun loop => goOn_extends h _ loop

theorem fromWithin_extends (language : Language) (lines : List Text) (fuel index : Nat)
    (entropy : Entropy) (scope : Scope) :
    Extends (fromWithin language lines fuel index entropy scope)
      (fromWithin language lines (fuel + 1) index entropy scope) := by
  induction fuel generalizing index entropy scope with
  | zero => exact fun _ absurd => nomatch absurd
  | succ fuel ih =>
    simp only [fromWithin]
    split
    · exact .refl _
    · split
      · exact ih (index + 1) entropy scope
      · split
        · exact .refl _
        · exact (actOn_extends (loopWithin_extends language fuel) ih lines index _ scope _).map _

theorem fromWithin_rising (language : Language) (lines : List Text) (index : Nat)
    (entropy : Entropy) (scope : Scope) :
    Rising (fromWithin language lines · index entropy scope) :=
  fun fuel => fromWithin_extends language lines fuel index entropy scope

/-- The loop with as much fuel as it needs. -/
noncomputable def runLoop (language : Language) (loop : Loop) (entropy : Entropy) (scope : Scope) :
    Option Outcome :=
  limit (loopWithin language loop · entropy scope)

/-- The lines from an index on with as much fuel as they need. -/
noncomputable def runFrom (language : Language) (lines : List Text) (index : Nat)
    (entropy : Entropy) (scope : Scope) : Option Outcome :=
  limit (fromWithin language lines · index entropy scope)

theorem limit_finishPass (language : Language) (loop : Loop) (outer : Scope) (pass : Outcome) :
    (limit fun fuel => finishPass (loopWithin language loop fuel) outer pass) =
      finishPass (runLoop language loop) outer pass := by
  unfold finishPass
  cases pass.ending with
  | completed => exact limit_map (loopWithin_rising language loop _ _) _
  | broken => exact limit_const _
  | failed failure => exact limit_const _

theorem runLoop_eq (language : Language) (loop : Loop) (entropy : Entropy) (scope : Scope) :
    runLoop language loop entropy scope =
      match Script.holds scope loop.condition with
      | .error e => some ⟨scope, entropy, [], 0, .failed ⟨loop.line, e⟩⟩
      | .ok false => some ⟨scope, entropy, [], 0, .completed⟩
      | .ok true =>
        finishPass (runLoop language loop) scope
          (runBlock language loop.start loop.block entropy scope) := by
  rw [runLoop, (loopWithin_rising language loop entropy scope).limit_succ]
  simp only [loopWithin]
  cases Script.holds scope loop.condition with
  | error e => exact limit_const _
  | ok holding =>
    cases holding with
    | false => exact limit_const _
    | true => exact limit_finishPass language loop scope _

theorem limit_goOn (language : Language) (lines : List Text) (resume : Nat) (loop : Outcome) :
    (limit fun fuel => goOn (fromWithin language lines fuel) resume loop) =
      goOn (runFrom language lines) resume loop := by
  unfold goOn
  cases loop.ending with
  | completed => exact limit_map (fromWithin_rising language lines resume _ _) _
  | broken => exact limit_const _
  | failed failure => exact limit_const _

theorem limit_actOn (language : Language) (lines : List Text) (index : Nat) (entropy : Entropy)
    (scope : Scope) (action : Action) :
    (limit fun fuel => actOn (loopWithin language · fuel) (fromWithin language lines fuel) lines
        index entropy scope action) =
      actOn (runLoop language) (runFrom language lines) lines index entropy scope action := by
  cases action with
  | update scope => rfl
  | leave => exact limit_const _
  | loop condition =>
    simp only [actOn]
    cases Block.find lines index with
    | error e => exact limit_const _
    | ok braces =>
      refine (limit_bind (loopWithin_rising language _ entropy scope) fun loop fuel =>
        goOn_extends (fromWithin_extends language lines fuel) _ loop).trans ?_
      simp only [limit_goOn]
      rfl

theorem runFrom_succ (language : Language) (lines : List Text) (index : Nat) (entropy : Entropy)
    (scope : Scope) :
    runFrom language lines index entropy scope =
      limit (fun fuel => fromWithin language lines (fuel + 1) index entropy scope) :=
  (fromWithin_rising language lines index entropy scope).limit_succ

theorem runFrom_of_end {index : Nat} (beyond : lines.length ≤ index) :
    runFrom language lines index entropy scope = some ⟨scope, entropy, [], 0, .completed⟩ := by
  rw [runFrom_succ]
  simp only [fromWithin, List.getElem?_eq_none beyond]
  exact limit_const _

theorem runFrom_of_skipped {index : Nat} {raw : Text} (found : lines[index]? = some raw)
    (skipped : Line.isSkipped raw = true) :
    runFrom language lines index entropy scope =
      runFrom language lines (index + 1) entropy scope := by
  rw [runFrom_succ]
  simp only [fromWithin, found, skipped, if_true]
  rfl

theorem runFrom_of_line (language : Language) (entropy : Entropy) (scope : Scope) {index : Nat}
    {raw : Text} (found : lines[index]? = some raw) (meaningful : Line.isSkipped raw = false) :
    runFrom language lines index entropy scope =
      let done := Action.perform language entropy scope raw
      match done.result with
      | .error e => some ⟨scope, done.entropy, done.shown, 1, .failed ⟨index + 1, e⟩⟩
      | .ok action =>
        (actOn (runLoop language) (runFrom language lines) lines index done.entropy scope
          action).map (·.after done.shown 1) := by
  rw [runFrom_succ]
  simp only [fromWithin, found, meaningful, Bool.false_eq_true, if_false]
  generalize Action.perform language entropy scope raw = done
  obtain ⟨result, shown, entropy⟩ := done
  cases result with
  | error e => exact limit_const _
  | ok action =>
    have rising := fun fuel => actOn_extends (loopWithin_extends language fuel)
      (fromWithin_extends language lines fuel) lines index entropy scope action
    refine (limit_map rising _).trans ?_
    rw [limit_actOn]

theorem goOn_after (onward : Nat → Entropy → Scope → Option Outcome) (resume : Nat)
    (loop : Outcome) (shown : List Message) (steps : Nat) :
    goOn onward resume (loop.after shown steps) =
      (goOn onward resume loop).map (·.after shown steps) := by
  obtain ⟨scope, entropy, later, taken, ending⟩ := loop
  cases ending with
  | completed =>
    simp only [goOn, Outcome.after, Option.map_map]
    congr 1
    funext rest
    simp [Nat.add_assoc]
  | broken => rfl
  | failed failure => rfl

theorem bind_goOn_after (onward : Nat → Entropy → Scope → Option Outcome) (resume : Nat)
    (loop? : Option Outcome) (shown : List Message) (steps : Nat) :
    (loop?.map (·.after shown steps)).bind (goOn onward resume) =
      (loop?.bind (goOn onward resume)).map (·.after shown steps) := by
  rw [Option.bind_map, Option.map_bind]
  congr 1
  funext loop
  exact goOn_after onward resume loop shown steps

theorem goOn_of_skipped (onward : Nat → Entropy → Scope → Option Outcome) (resume : Nat)
    (entropy : Entropy) (scope : Scope) :
    goOn onward resume ⟨scope, entropy, [], 0, .completed⟩ = onward resume entropy scope := by
  simp [goOn]

theorem runFrom_nextMeaningful (language : Language) (lines : List Text) (index : Nat)
    (entropy : Entropy) (scope : Scope) :
    runFrom language lines (Block.nextMeaningful lines index) entropy scope =
      runFrom language lines index entropy scope := by
  induction index using Block.skip_induction lines with
  | atEnd index beyond =>
    rw [Block.nextMeaningful_of_end beyond, runFrom_of_end le_rfl, runFrom_of_end beyond]
  | atLine index raw found meaningful => rw [Block.nextMeaningful_of_meaningful found meaningful]
  | skip index raw found skipped ih =>
    rw [Block.nextMeaningful_of_skipped found skipped, ih, runFrom_of_skipped found skipped]

theorem runBlock_nextMeaningful (language : Language) (line : Nat) (lines : List Text)
    (index : Nat) (entropy : Entropy) (scope : Scope) :
    runBlock language (line + Block.nextMeaningful lines index)
        (lines.drop (Block.nextMeaningful lines index)) entropy scope =
      runBlock language (line + index) (lines.drop index) entropy scope := by
  induction index using Block.skip_induction lines with
  | atEnd index beyond =>
    rw [Block.nextMeaningful_of_end beyond, List.drop_eq_nil_of_le beyond,
      List.drop_eq_nil_of_le le_rfl]
    simp only [runBlock]
  | atLine index raw found meaningful => rw [Block.nextMeaningful_of_meaningful found meaningful]
  | skip index raw found skipped ih =>
    obtain ⟨within, rfl⟩ := List.getElem?_eq_some_iff.mp found
    rw [Block.nextMeaningful_of_skipped found skipped, ih, List.drop_eq_getElem_cons within,
      runBlock, if_pos skipped, Nat.add_assoc]

end StepScript.Structured
