import StepScript.Proofs.ExpressionCuts

/-! Arithmetic folded in place. Operands and operators are collected in two lists, and two passes
fold them by index, the first one products and quotients, the second one sums and differences. Each
fold takes an operator away, and the operand behind it. There is always one operand more than there
are operators, so that every index is in range and one operand is left at the end. -/
namespace StepScript

namespace Arithmetic

variable {α : Type} {domain : Domain α}

section Collecting

/-- The operands and operators of the tokens read so far, the sign of the next operand, and whether
an operand is wanted next. -/
structure Collected (α : Type) where
  operands : List α
  operators : List Operator
  negative : Bool
  wanted : Bool

/-- One more token, if it is what is wanted. -/
def Collected.accept (domain : Domain α) (c : Collected α) (token : Lexeme Token) :
    Option (Collected α) :=
  if c.wanted then
    match token.kind with
    | .operand =>
      let text := if c.negative then '-' :: token.text else token.text
      some ⟨c.operands ++ [domain.read text], c.operators, false, false⟩
    | .operator .sub => some { c with negative := !c.negative }
    | _ => none
  else
    match token.kind with
    | .operator op => some { c with operators := c.operators ++ [op], wanted := true }
    | _ => none

/-- Operands and operators, if no operand is wanted at the end. -/
def Collected.done? (c : Collected α) : Option (List α × List Operator) :=
  if c.wanted then none else some (c.operands, c.operators)

def collect? (domain : Domain α) (tokens : List (Lexeme Token)) :
    Option (List α × List Operator) :=
  tokens.foldlM (Collected.accept domain) ⟨[], [], false, true⟩ >>= Collected.done?

theorem foldlM_accept (negative : Bool) (operands : List α) (operators : List Operator)
    (tokens : List (Lexeme Token)) :
    (tokens.foldlM (Collected.accept domain) ⟨operands, operators, negative, true⟩ >>=
      Collected.done?) = (chain? domain negative tokens).map fun (first, more) =>
        (operands ++ first :: more.map Prod.snd, operators ++ more.map Prod.fst) := by
  fun_induction chain? domain negative tokens generalizing operands operators with
  | case1 => rfl
  | case2 => rfl
  | case3 negative text more ih => exact ih operands operators
  | case4 negative op text more other =>
    cases op with
    | sub => exact absurd rfl other
    | add | mul | div => rfl
  | case5 negative text value => simp [Collected.accept, Collected.done?, value]
  | case6 negative text value op word rest ih =>
    have later := ih (operands ++ [value]) (operators ++ [op])
    refine later.trans ?_
    cases chain? domain false rest <;> simp
  | case7 negative text more nonempty other =>
    obtain ⟨⟨kind, word⟩, rest, rfl⟩ := List.exists_cons_of_ne_nil nonempty
    cases kind with
    | operator op => exact absurd rfl (other op word rest)
    | operand | gap => rfl

theorem collect?_eq (domain : Domain α) (tokens : List (Lexeme Token)) :
    collect? domain tokens = (chain? domain false tokens).map fun (first, more) =>
      (first :: more.map Prod.snd, more.map Prod.fst) :=
  foldlM_accept false [] [] tokens

end Collecting

section Passes

/-- The operators that are folded first, and those that are folded then. -/
inductive Pass where
  | products
  | sums

def Pass.folds : Pass → Operator → Bool
  | .products, op => op.isProduct
  | .sums, op => !op.isProduct

/-- One pass over operands and operators by turns. -/
def foldIn (domain : Domain α) (pass : Pass) :
    α → List (Operator × α) → Except Error (α × List (Operator × α))
  | acc, [] => .ok (acc, [])
  | acc, (op, value) :: more =>
    if pass.folds op then do
      let acc ← domain.apply op acc value
      foldIn domain pass acc more
    else do
      let (next, tail) ← foldIn domain pass value more
      return (acc, (op, next) :: tail)

theorem foldIn_products (acc : α) (more : List (Operator × α)) :
    foldIn domain .products acc more = products domain acc more := by
  fun_induction products domain acc more with
  | case1 => rfl
  | case2 acc op value more product ih =>
    rw [foldIn, Pass.folds, if_pos product]
    exact congrArg _ (funext ih)
  | case3 acc op value more other ih => rw [foldIn, Pass.folds, if_neg other, ih]

/-- The first pass leaves no products. -/
theorem sums_of_products {acc first : α} {more rest : List (Operator × α)}
    (folded : products domain acc more = .ok (first, rest)) :
    ∀ entry ∈ rest, entry.1.isProduct = false := by
  fun_induction products domain acc more generalizing first rest with
  | case1 =>
    cases folded
    exact List.forall_mem_nil _
  | case2 acc op value more product ih =>
    obtain ⟨next, _, folded⟩ := Error.ok_of_bind folded
    exact ih next folded
  | case3 acc op value more other ih =>
    obtain ⟨⟨next, tail⟩, later, same⟩ := Error.ok_of_bind folded
    cases same
    exact List.forall_mem_cons.mpr ⟨Bool.eq_false_iff.mpr other, ih later⟩

theorem foldIn_sums (acc : α) {more : List (Operator × α)}
    (rest : ∀ entry ∈ more, entry.1.isProduct = false) :
    foldIn domain .sums acc more = (·, []) <$> sums domain acc more := by
  induction more generalizing acc with
  | nil => rfl
  | cons entry more ih =>
    obtain ⟨here, later⟩ := List.forall_mem_cons.mp rest
    obtain ⟨op, value⟩ := entry
    rw [foldIn, sums, Pass.folds, here, Bool.not_false, if_pos rfl]
    cases domain.apply op acc value with
    | error e => rfl
    | ok acc => exact ih acc later

end Passes

/-- The state of a pass: the index of the next operator, and what has not been folded. -/
structure Folding (α : Type) where
  index : Nat
  operands : List α
  operators : List Operator

namespace Folding

variable {pass : Pass} {f next : Folding α} {tokens : List (Lexeme Token)}

section Turns

/-- One turn of a pass. There is no result where an index is out of range. -/
def turn (domain : Domain α) (pass : Pass) (f : Folding α) : Cutting (Folding α) := do
  let op ← (f.operators[f.index]? : Option Operator)
  if pass.folds op then do
    let left ← (f.operands[f.index]? : Option α)
    let right ← (f.operands[f.index + 1]? : Option α)
    let value ← domain.apply op left right
    return ⟨f.index, (f.operands.set f.index value).eraseIdx (f.index + 1),
      f.operators.eraseIdx f.index⟩
  else return { f with index := f.index + 1 }

/-- What a turn does: it folds two operands into one, or passes over an operator. -/
theorem turn_cases (turned : (turn domain pass f).run = some (.ok next)) :
    ∃ op, f.operators[f.index]? = some op ∧
      ((∃ right value, f.operands[f.index + 1]? = some right ∧
          next = ⟨f.index, (f.operands.set f.index value).eraseIdx (f.index + 1),
            f.operators.eraseIdx f.index⟩) ∨
        next = { f with index := f.index + 1 }) := by
  obtain ⟨op, found, turned⟩ := Cutting.of_bind_some turned
  refine ⟨op, found, ?_⟩
  split at turned
  · obtain ⟨left, _, turned⟩ := Cutting.of_bind_some turned
    obtain ⟨right, behind, turned⟩ := Cutting.of_bind_some turned
    obtain ⟨value, _, turned⟩ := Cutting.of_bind_lift turned
    cases turned
    exact .inl ⟨right, value, behind, rfl⟩
  · cases turned
    exact .inr rfl

/-- A turn brings the end of a pass closer. -/
theorem turn_less (turned : (turn domain pass f).run = some (.ok next)) :
    next.operators.length - next.index < f.operators.length - f.index := by
  obtain ⟨op, found, cases⟩ := turn_cases turned
  have within := (List.getElem?_eq_some_iff.mp found).1
  rcases cases with ⟨right, value, _, rfl⟩ | rfl
  · rw [List.length_eraseIdx_of_lt within]
    dsimp only
    omega
  · exact Nat.sub_succ_lt_self _ _ within

/-- One operand more than operators. -/
def Sound (f : Folding α) : Prop :=
  f.operands.length = f.operators.length + 1

theorem turn_sound (turned : (turn domain pass f).run = some (.ok next)) (sound : f.Sound) :
    next.Sound := by
  obtain ⟨op, found, ⟨right, value, behind, rfl⟩ | rfl⟩ := turn_cases turned
  · have within := (List.getElem?_eq_some_iff.mp found).1
    have paired := (List.getElem?_eq_some_iff.mp behind).1
    rw [Sound, List.length_eraseIdx_of_lt (by rwa [List.length_set]), List.length_set,
      List.length_eraseIdx_of_lt within]
    rw [Sound] at sound
    omega
  · exact sound

/-- While there are operators, every index that a turn reads is in range. -/
theorem turn_in_range (sound : f.Sound) (more : f.index < f.operators.length) :
    f.index + 1 < f.operands.length ∧ (turn domain pass f).run ≠ none := by
  have behind : f.index + 1 < f.operands.length := sound ▸ Nat.succ_lt_succ more
  refine ⟨behind, ?_⟩
  rw [turn, Cutting.run_bind_some (List.getElem?_eq_getElem more)]
  split
  · rw [Cutting.run_bind_some (List.getElem?_eq_getElem (Nat.lt_of_succ_lt behind)),
      Cutting.run_bind_some (List.getElem?_eq_getElem behind)]
    cases domain.apply _ _ _ <;> exact Option.some_ne_none _
  · exact Option.some_ne_none _

end Turns

section Runs

/-- Turns until every operator has been folded or passed over. -/
def run (domain : Domain α) (pass : Pass) (f : Folding α) : Cutting (List α × List Operator) :=
  if f.index < f.operators.length then
    match turned : (turn domain pass f).run with
    | some (.ok next) =>
      have _ := turn_less turned
      run domain pass next
    | some (.error e) => throw e
    | none => ExceptT.mk none
  else return (f.operands, f.operators)
termination_by f.operators.length - f.index

theorem run_turn {result : Except Error (Folding α)} (more : f.index < f.operators.length)
    (turned : (turn domain pass f).run = some result) :
    run domain pass f = (liftM result : Cutting (Folding α)) >>= run domain pass := by
  rw [run, if_pos more]
  split
  · rename_i same
    cases turned.symm.trans same
    rfl
  · rename_i same
    cases turned.symm.trans same
    rfl
  · rename_i same
    cases turned.symm.trans same

/-- A state in which these operands and operators have been passed over. -/
def between (passed : List (α × Operator)) (acc : α) (more : List (Operator × α)) : Folding α :=
  ⟨passed.length, passed.map Prod.fst ++ acc :: more.map Prod.snd,
    passed.map Prod.snd ++ more.map Prod.fst⟩

theorem turn_between (passed : List (α × Operator)) (acc : α) (op : Operator) (value : α)
    (more : List (Operator × α)) :
    (turn domain pass (between passed acc ((op, value) :: more))).run =
      some (if pass.folds op then (between passed · more) <$> domain.apply op acc value
        else .ok (between (passed ++ [(acc, op)]) value more)) := by
  have here : (between passed acc ((op, value) :: more)).operators[passed.length]? = some op := by
    simp [between]
  have left : (between passed acc ((op, value) :: more)).operands[passed.length]? = some acc := by
    simp [between]
  have right : (between passed acc ((op, value) :: more)).operands[passed.length + 1]? =
      some value := by
    rw [between, List.getElem?_append_right (by simp)]
    simp
  refine (Cutting.run_bind_some here).trans ?_
  split
  · refine (Cutting.run_bind_some left).trans ((Cutting.run_bind_some right).trans ?_)
    cases domain.apply op acc value with
    | error e => rfl
    | ok value' =>
      refine congrArg (some ∘ Except.ok) ?_
      simp [between, List.eraseIdx_append]
  · refine congrArg (some ∘ Except.ok) ?_
    simp [between]

theorem run_between (passed : List (α × Operator)) (acc : α) (more : List (Operator × α)) :
    (run domain pass (between passed acc more)).run =
      some ((fun (first, rest) => (passed.map Prod.fst ++ first :: rest.map Prod.snd,
        passed.map Prod.snd ++ rest.map Prod.fst)) <$> foldIn domain pass acc more) := by
  induction more generalizing passed acc with
  | nil =>
    rw [run, if_neg (by simp [between])]
    rfl
  | cons entry more ih =>
    obtain ⟨op, value⟩ := entry
    rw [run_turn (by simp [between]) (turn_between passed acc op value more), foldIn]
    -- A fold keeps what has been passed over; otherwise an operand and its operator join it.
    split
    · cases domain.apply op acc value with
      | error e => rfl
      | ok acc => exact ih passed acc
    · refine (ih (passed ++ [(acc, op)]) value).trans ?_
      cases foldIn domain pass value more with
      | error e => rfl
      | ok folded =>
        refine congrArg (some ∘ Except.ok) ?_
        simp

end Runs

section Reachable

/-- The states of both passes over what is collected from tokens. -/
inductive Reached (domain : Domain α) (tokens : List (Lexeme Token)) : Pass → Folding α → Prop where
  | start {operands : List α} {operators : List Operator}
      (collected : collect? domain tokens = some (operands, operators)) :
      Reached domain tokens .products ⟨0, operands, operators⟩
  | turn {pass : Pass} {f next : Folding α} (reached : Reached domain tokens pass f)
      (more : f.index < f.operators.length)
      (turned : (turn domain pass f).run = some (.ok next)) : Reached domain tokens pass next
  | second {f : Folding α} (reached : Reached domain tokens .products f)
      (done : f.operators.length ≤ f.index) :
      Reached domain tokens .sums ⟨0, f.operands, f.operators⟩

theorem Reached.sound (reached : Reached domain tokens pass f) : f.Sound := by
  induction reached with
  | start collected =>
    rw [collect?_eq] at collected
    obtain ⟨⟨first, more⟩, _, same⟩ := Option.map_eq_some_iff.mp collected
    cases same
    simp [Sound]
  | turn _ _ turned ih => exact turn_sound turned ih
  | second _ _ ih => exact ih

/-- A pass ends in a state behind all operators. -/
theorem Reached.run {operands : List α} {operators : List Operator}
    (reached : Reached domain tokens pass f)
    (ended : (run domain pass f).run = some (.ok (operands, operators))) :
    ∃ index, operators.length ≤ index ∧
      Reached domain tokens pass ⟨index, operands, operators⟩ := by
  fun_induction Folding.run domain pass f with
  | case1 f more next turned less ih => exact ih (reached.turn more turned) ended
  | case2 => cases ended
  | case3 => cases ended
  | case4 f done =>
    cases ended
    exact ⟨f.index, Nat.le_of_not_lt done, reached⟩

/-- There is an operand in every state of a pass. -/
theorem Sound.head? (sound : f.Sound) : ∃ first, f.operands.head? = some first := by
  obtain ⟨first, rest, same⟩ := List.exists_cons_of_length_eq_add_one sound
  exact ⟨first, by rw [same]; rfl⟩

/-- Both passes over what is collected from tokens keep to their lists. The index of an operator has
an operand on both sides, and behind the second pass there is an operand left. -/
structure InRange (domain : Domain α) (tokens : List (Lexeme Token)) : Prop where
  lengths : ∀ pass f, Reached domain tokens pass f → f.operands.length = f.operators.length + 1
  indices : ∀ pass f, Reached domain tokens pass f → f.index < f.operators.length →
    f.index + 1 < f.operands.length ∧ (Folding.turn domain pass f).run ≠ none
  left : ∀ collected folded ended, collect? domain tokens = some collected →
    (Folding.run domain .products ⟨0, collected.1, collected.2⟩).run = some (.ok folded) →
    (Folding.run domain .sums ⟨0, folded.1, folded.2⟩).run = some (.ok ended) →
    ∃ result, ended.1.head? = some result

theorem inRange (domain : Domain α) (tokens : List (Lexeme Token)) : InRange domain tokens where
  lengths _ _ reached := reached.sound
  indices _ _ reached more := turn_in_range reached.sound more
  left collected folded ended start first second := by
    obtain ⟨index, done, reached⟩ := (Reached.start start).run first
    obtain ⟨_, _, last⟩ := (reached.second done).run second
    exact last.sound.head?

end Reachable
end Folding
end Arithmetic

namespace Encoded

open StepScript.Arithmetic

variable {α : Type} {domain : Domain α}

/-- Arithmetic over a text whose literals have been replaced by numbers. -/
def foldTokens (domain : Domain α) (tokens : List (Lexeme Token)) : Cutting α :=
  match collect? domain tokens with
  | none => throw (countError tokens)
  | some (operands, operators) => do
    let (operands, operators) ← Folding.run domain .products ⟨0, operands, operators⟩
    let (operands, _) ← Folding.run domain .sums ⟨0, operands, operators⟩
    match operands.head? with
    | some first => return first
    | none => throw (countError tokens)

def arithmetic (domain : Domain α) (t : Text) : Cutting α := do
  let unquoted ← unquote (fun contents => domain.display (domain.read contents)) t
  foldTokens domain (tokens unquoted)

theorem foldTokens_run (domain : Domain α) (tokens : List (Lexeme Token)) :
    (foldTokens domain tokens).run = some (match chain? domain false tokens with
      | some (first, more) => fold domain first more
      | none => .error (countError tokens)) := by
  rw [foldTokens, collect?_eq]
  cases chain? domain false tokens with
  | none => rfl
  | some chain =>
    obtain ⟨first, more⟩ := chain
    have once := @Folding.run_between α domain .products [] first more
    rw [foldIn_products] at once
    dsimp only [Option.map_some]
    rw [fold]
    cases folded : products domain first more with
    | error e =>
      rw [folded] at once
      exact Cutting.run_bind_error once
    | ok left =>
      rw [folded] at once
      have twice := @Folding.run_between α domain .sums [] left.1 left.2
      rw [foldIn_sums left.1 (sums_of_products folded)] at twice
      refine (Cutting.run_bind_ok once).trans ?_
      change ExceptT.run (_ >>= _) = some (sums domain left.1 left.2)
      cases summed : sums domain left.1 left.2 with
      | error e =>
        rw [summed] at twice
        exact Cutting.run_bind_error twice
      | ok result =>
        rw [summed] at twice
        exact Cutting.run_bind_ok twice

theorem arithmetic_run (domain : Domain α) (t : Text) : (arithmetic domain t).run = some (do
    Quoted.check t
    Arithmetic.evaluate domain t) := by
  refine (Cutting.run_bind (unquote_run _ t) fun unquoted _ => foldTokens_run domain _).trans ?_
  cases Quoted.check t <;> rfl

end Encoded
end StepScript
