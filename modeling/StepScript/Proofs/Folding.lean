import StepScript.Line
import StepScript.Proofs.Effect
import StepScript.Proofs.LetterCase
import StepScript.Proofs.Substitution

/-! Texts in lower case outside their literals. Everything that cuts a text, at the end of its
literals or at signs outside of them, cuts a folded text at the same places, and the parts are the
folded parts. -/
namespace StepScript

namespace Quoted

variable {inside : Bool} {d : Char} {t : Text}

/-- The character in lower case, unless it lies inside a literal. -/
def foldChar (inside : Bool) (c : Char) : Char :=
  if inside then c else c.toLower

/-- The text with the letters outside its literals in lower case. -/
def fold (inside : Bool) : Text → Text
  | [] => []
  | c :: t => foldChar inside c :: fold (step inside c) t

theorem apply_foldChar {β : Type} {p : Char → β} (blind : ∀ c, p c.toLower = p c) (inside : Bool)
    (c : Char) : p (foldChar inside c) = p c := by
  cases inside with
  | true => rfl
  | false => exact blind c

@[simp] theorem toLower_foldChar (inside : Bool) (c : Char) :
    (foldChar inside c).toLower = c.toLower :=
  apply_foldChar (by simp) inside c

@[simp] theorem foldChar_foldChar (inside : Bool) (c : Char) :
    foldChar inside (foldChar inside c) = foldChar inside c := by
  cases inside <;> simp [foldChar]

@[simp] theorem isBlank_foldChar (inside : Bool) (c : Char) :
    isBlank (foldChar inside c) = isBlank c :=
  apply_foldChar isBlank_toLower inside c

@[simp] theorem isGap_foldChar (inside : Bool) (c : Char) : isGap (foldChar inside c) = isGap c :=
  apply_foldChar isGap_toLower inside c

@[simp] theorem utf8Size_foldChar (inside : Bool) (c : Char) :
    (foldChar inside c).utf8Size = c.utf8Size :=
  apply_foldChar utf8Size_toLower inside c

@[simp] theorem step_foldChar (flag inside : Bool) (c : Char) :
    step flag (foldChar inside c) = step flag c :=
  apply_foldChar (step_toLower flag) inside c

theorem foldChar_beq (other : d.isAlpha = false) (inside : Bool) (c : Char) :
    (foldChar inside c == d) = (c == d) :=
  apply_foldChar (p := (· == d)) (toLower_beq other) inside c

@[simp] theorem fold_nil (inside : Bool) : fold inside [] = [] := rfl

@[simp] theorem fold_cons (inside : Bool) (c : Char) (t : Text) :
    fold inside (c :: t) = foldChar inside c :: fold (step inside c) t := rfl

theorem fold_append (inside : Bool) (left right : Text) :
    fold inside (left ++ right) = fold inside left ++ fold (after inside left) right := by
  induction left generalizing inside with
  | nil => rfl
  | cons c left ih => simp [ih]

theorem head?_fold_beq (other : d.isAlpha = false) (inside : Bool) (t : Text) :
    ((fold inside t).head? == some d) = (t.head? == some d) := by
  cases t with
  | nil => rfl
  | cons c t => exact foldChar_beq other inside c

@[simp] theorem isEmpty_fold (inside : Bool) (t : Text) : (fold inside t).isEmpty = t.isEmpty := by
  cases t <;> rfl

/-- Folding is forgotten in lower case. -/
@[simp] theorem lower_fold (inside : Bool) (t : Text) : (fold inside t).lower = t.lower := by
  induction t generalizing inside with
  | nil => rfl
  | cons c t ih => simp [ih]

theorem contains_fold (other : d.isAlpha = false) (inside : Bool) (t : Text) :
    (fold inside t).contains d = t.contains d := by
  rw [← Text.contains_lower other, lower_fold, Text.contains_lower other]

@[simp] theorem after_fold (flag inside : Bool) (t : Text) :
    after flag (fold inside t) = after flag t := by
  rw [← after_lower, lower_fold, after_lower]

@[simp] theorem check_fold (inside : Bool) (t : Text) : check (fold inside t) = check t := by
  rw [← check_lower, lower_fold, check_lower]

@[simp] theorem fold_fold (inside : Bool) (t : Text) :
    fold inside (fold inside t) = fold inside t := by
  induction t generalizing inside with
  | nil => rfl
  | cons c t ih => simp [ih]

theorem fold_of_free (free : '"' ∉ t) (inside : Bool) :
    fold inside t = t.map (foldChar inside) := by
  induction t with
  | nil => rfl
  | cons c t ih =>
    rw [List.mem_cons, not_or] at free
    rw [fold_cons, step_of_ne (Ne.symm free.1), ih free.2, List.map_cons]

theorem fold_eq_singleton (other : d.isAlpha = false) : fold false t = [d] ↔ t = [d] := by
  constructor
  · intro folded
    refine (Text.lower_eq_singleton other).mp ?_
    rw [← lower_fold false, folded, Text.lower_eq_singleton other]
  · rintro rfl
    exact congrArg ([·]) ((toLower_eq_iff other).mpr rfl)

theorem trimStart_fold (inside : Bool) (t : Text) :
    Text.trimStart (fold inside t) = fold inside t.trimStart := by
  induction t with
  | nil => rfl
  | cons c t ih =>
    cases blank : isBlank c with
    | true =>
      have unquoted : c ≠ '"' := by
        rintro rfl
        exact absurd blank (by decide)
      simpa [Text.trimStart, blank, step_of_ne unquoted] using ih
    | false => simp [Text.trimStart, blank]

theorem trimEnd_fold (inside : Bool) (t : Text) :
    Text.trimEnd (fold inside t) = fold inside t.trimEnd := by
  induction t generalizing inside with
  | nil => rfl
  | cons c t ih =>
    rw [fold_cons, Text.trimEnd, ih, Text.trimEnd]
    cases Text.trimEnd t with
    | nil => cases blank : isBlank c <;> simp [blank]
    | cons d u => rfl

@[simp] theorem trim_fold (inside : Bool) (t : Text) :
    Text.trim (fold inside t) = fold inside t.trim := by
  rw [Text.trim, trimStart_fold, trimEnd_fold, Text.trim]

theorem dropSuffix?_fold (other : d.isAlpha = false) (inside : Bool) (t : Text) :
    Text.dropSuffix? d (fold inside t) = (Text.dropSuffix? d t).map (fold inside) := by
  cases t using List.reverseRecOn with
  | nil => rfl
  | append_singleton u c =>
    rw [fold_append, Text.dropSuffix?, Text.dropSuffix?]
    simp [foldChar_beq other]

@[simp] theorem dropLast_fold (inside : Bool) (t : Text) :
    (fold inside t).dropLast = fold inside t.dropLast := by
  cases t using List.reverseRecOn with
  | nil => rfl
  | append_singleton u c => simp [fold_append]

end Quoted

namespace Line

open Quoted

theorem beforeComment_fold (inside : Bool) (t : Text) :
    beforeComment inside (fold inside t) = fold inside (beforeComment inside t) := by
  induction t generalizing inside with
  | nil => rfl
  | cons c t ih =>
    rw [fold_cons, beforeComment, head?_fold_beq (by decide), foldChar_beq (by decide),
      step_foldChar, ih, beforeComment]
    split <;> rfl

theorem clean_fold (raw : Text) : clean (fold false raw) = fold false (clean raw) := by
  rw [clean, trim_fold, beforeComment_fold, trim_fold, clean]

end Line

namespace Quoted

variable {sep : Char}

theorem splitFirst_fold (other : sep.isAlpha = false) (unquoted : sep ≠ '"') (inside : Bool)
    (t : Text) :
    Text.splitFirst sep (fold inside t) =
      (Text.splitFirst sep t).map fun (before, rest) =>
        (fold inside before, fold (after inside before) rest) := by
  induction t generalizing inside with
  | nil => rfl
  | cons c t ih =>
    rw [fold_cons, Text.splitFirst, foldChar_beq other, ih, Text.splitFirst]
    split
    · rename_i found
      obtain rfl := beq_iff_eq.mp found
      simp [step_of_ne unquoted]
    · simp [Function.comp_def]

/-- The pieces of a text between its quotes, folded. Every other piece lies inside a literal. -/
def foldPieces (inside : Bool) : List Text → List Text
  | [] => []
  | piece :: pieces => piece.map (foldChar inside) :: foldPieces (!inside) pieces

theorem splitWhere_fold (inside : Bool) (t : Text) :
    splitWhere (· == '"') (fold inside t) = foldPieces inside (splitWhere (· == '"') t) := by
  induction t generalizing inside with
  | nil => rfl
  | cons c t ih =>
    rw [fold_cons, splitWhere, foldChar_beq (by decide), ih, splitWhere]
    by_cases quote : c = '"'
    · subst quote
      have turned : step inside '"' = !inside := by cases inside <;> rfl
      simp [turned, foldPieces]
    · rw [step_of_ne quote]
      cases splitWhere (· == '"') t with
      | nil => simp [quote, foldPieces]
      | cons piece pieces => simp [quote, foldPieces]

theorem pairs_foldPieces (texts : List Text) :
    pairs (foldPieces true texts) = (pairs texts).map (Prod.map id Text.lower) := by
  fun_induction pairs texts with
  | case1 contents gap more ih =>
    have kept : contents.map (foldChar true) = contents := List.map_id contents
    simp only [foldPieces, Bool.not_true, Bool.not_false, kept, pairs, ih, List.map_cons]
    rfl
  | case2 texts short =>
    cases texts with
    | nil => rfl
    | cons contents more =>
      cases more with
      | nil => rfl
      | cons gap more => exact absurd rfl (short contents gap more)

theorem pieces_fold (t : Text) :
    pieces (fold false t) = (pieces t).map Text.lower (List.map (Prod.map id Text.lower)) := by
  rw [pieces, splitWhere_fold, pieces]
  cases splitWhere (· == '"') t with
  | nil => rfl
  | cons lead more =>
    simp only [foldPieces, Bool.not_false, pairs_foldPieces]
    rfl

end Quoted

namespace Group

open Quoted

@[simp] theorem depthAfter_foldChar (inside : Bool) (depth : Nat) (c : Char) :
    depthAfter inside depth (foldChar inside c) = depthAfter inside depth c := by
  simp (disch := decide) only [depthAfter, foldChar_beq]

theorem spansFrom_fold (t : Text) :
    spansFrom 0 false [] (fold false t) = spansFrom 0 false [] t := by
  rw [← spansFrom_lower, lower_fold, spansFrom_lower]

theorem splitTop_fold {sep : Char} (other : sep.isAlpha = false) (unquoted : sep ≠ '"')
    (inside : Bool) (depth : Nat) (t : Text) :
    splitTop sep inside depth (fold inside t) =
      match splitTop sep inside depth t with
      | [] => []
      | piece :: pieces => fold inside piece :: pieces.map (fold false) := by
  induction t generalizing inside depth with
  | nil => rfl
  | cons c t ih =>
    rw [fold_cons, splitTop, foldChar_beq other, step_foldChar, depthAfter_foldChar, ih, splitTop]
    split
    · rename_i found
      simp only [Bool.and_eq_true, Bool.not_eq_true', beq_iff_eq] at found
      obtain ⟨⟨rfl, rfl⟩, _⟩ := found
      rw [step_of_ne unquoted, ih]
      cases splitTop c false depth t with
      | nil => rfl
      | cons piece pieces => rfl
    · cases splitTop sep (step inside c) (depthAfter inside depth c) t with
      | nil => rfl
      | cons piece pieces => rfl

theorem splitTop_fold_outside {sep : Char} (other : sep.isAlpha = false) (unquoted : sep ≠ '"')
    (depth : Nat) (t : Text) :
    splitTop sep false depth (fold false t) = (splitTop sep false depth t).map (fold false) := by
  rw [splitTop_fold other unquoted]
  cases splitTop sep false depth t with
  | nil => rfl
  | cons piece pieces => rfl

theorem splitLastOpen_fold (inside : Bool) (t : Text) :
    splitLastOpen inside (fold inside t) = (splitLastOpen inside t).map fun (before, rest) =>
      (fold inside before, fold false rest) := by
  induction t generalizing inside with
  | nil => rfl
  | cons c t ih =>
    rw [fold_cons, splitLastOpen, step_foldChar, ih, splitLastOpen, foldChar_beq (by decide)]
    cases splitLastOpen (step inside c) t with
    | some cut => rfl
    | none =>
      simp only [Option.map_none]
      split
      · rename_i found
        simp only [Bool.and_eq_true, Bool.not_eq_true', beq_iff_eq] at found
        obtain ⟨rfl, rfl⟩ := found
        rfl
      · rfl

theorem splitFirstClose_fold (inside : Bool) (t : Text) :
    splitFirstClose inside (fold inside t) = (splitFirstClose inside t).map fun (before, rest) =>
      (fold inside before, fold false rest) := by
  induction t generalizing inside with
  | nil => rfl
  | cons c t ih =>
    rw [fold_cons, splitFirstClose, step_foldChar, ih, splitFirstClose, foldChar_beq (by decide)]
    split
    · rename_i found
      simp only [Bool.and_eq_true, Bool.not_eq_true', beq_iff_eq] at found
      obtain ⟨rfl, rfl⟩ := found
      rfl
    · simp [Function.comp_def]

/-- Outside literals the text is cut as it was, and what stands around the group is folded. -/
theorem last?_fold (t : Text) :
    last? (fold false t) = (last? t).map fun cut =>
      ⟨fold false cut.before, fold false cut.inner, fold false cut.after⟩ := by
  simp only [last?, splitLastOpen_fold]
  cases splitLastOpen false t with
  | none => rfl
  | some cut =>
    obtain ⟨before, rest⟩ := cut
    simp only [Option.map_some, bind, Option.bind, splitFirstClose_fold]
    cases splitFirstClose false rest with
    | none => rfl
    | some cut => rfl

theorem after_splitLastOpen {inside : Bool} {t before rest : Text}
    (cut : splitLastOpen inside t = some (before, rest)) : after inside before = false := by
  induction t generalizing inside before rest with
  | nil => cases cut
  | cons c t ih =>
    rw [splitLastOpen] at cut
    split at cut
    · rename_i later
      cases cut
      rw [after_cons]
      exact ih later
    · split at cut
      · rename_i found
        cases cut
        simp only [Bool.and_eq_true, Bool.not_eq_true'] at found
        exact found.1
      · cases cut

theorem after_last? {t : Text} {cut : Cut} (found : last? t = some cut) :
    after false cut.before = false := by
  obtain ⟨⟨before, rest⟩, opened, closed⟩ := Option.bind_eq_some_iff.mp found
  obtain ⟨⟨inner, behind⟩, _, same⟩ := Option.bind_eq_some_iff.mp closed
  cases same
  exact after_splitLastOpen opened

end Group

namespace Statement

open Quoted

@[simp] theorem comparesBefore_foldChar (inside : Bool) (c : Char) :
    comparesBefore (foldChar inside c) = comparesBefore c := by
  simp (disch := decide) only [comparesBefore, foldChar_beq]

theorem splitEquals_fold (inside : Bool) (depth : Nat) (previous? : Option Char)
    (flag : Bool) (t : Text) :
    splitEquals inside depth (previous?.map (foldChar flag)) (fold inside t) =
      (splitEquals inside depth previous? t).map fun (left, right) =>
        (fold inside left, fold false right) := by
  induction t generalizing inside depth previous? flag with
  | nil => rfl
  | cons c t ih =>
    have before : (previous?.map (foldChar flag)).any comparesBefore =
        previous?.any comparesBefore := by
      simp [Option.any_map]
    have next : ((fold (step inside c) t).head? != some '=') = (t.head? != some '=') := by
      rw [bne, head?_fold_beq (by decide), bne]
    have later := ih (step inside c) (Group.depthAfter inside depth c) (some c) inside
    rw [Option.map_some] at later
    simp only [fold_cons, splitEquals, before, next, foldChar_beq (by decide : '='.isAlpha = false),
      step_foldChar, Group.depthAfter_foldChar, later]
    split
    · rename_i found
      simp only [Bool.and_eq_true, Bool.not_eq_true', beq_iff_eq] at found
      obtain ⟨⟨⟨rfl, rfl⟩, _⟩, _⟩ := found
      rfl
    · simp [Function.comp_def]

end Statement

namespace Condition

open Quoted

@[simp] theorem Operator.ofPair?_foldChar (inside flag : Bool) (c d : Char) :
    Operator.ofPair? (foldChar inside c) (foldChar flag d) = Operator.ofPair? c d := by
  simp (disch := decide) only [Operator.ofPair?, foldChar_beq]

@[simp] theorem Operator.ofChar?_foldChar (inside : Bool) (c : Char) :
    Operator.ofChar? (foldChar inside c) = Operator.ofChar? c := by
  simp (disch := decide) only [Operator.ofChar?, foldChar_beq]

@[simp] theorem isStray_foldChar (inside : Bool) (c : Char) :
    isStray (foldChar inside c) = isStray c := by
  simp (disch := decide) only [isStray, foldChar_beq]

/-- The lexeme folded as a text that starts inside a literal or outside. -/
def foldLexeme (inside : Bool) (l : Lexeme Token) : Lexeme Token :=
  { l with text := Quoted.fold inside l.text }

/-- The lexemes of a text, the first of which may start inside a literal. -/
def foldLexemes (inside : Bool) : List (Lexeme Token) → List (Lexeme Token)
  | [] => []
  | l :: more => foldLexeme inside l :: more.map (foldLexeme false)

theorem foldLexemes_false (lexemes : List (Lexeme Token)) :
    foldLexemes false lexemes = lexemes.map (foldLexeme false) := by
  cases lexemes <;> rfl

theorem foldLexemes_cons (inside : Bool) (l : Lexeme Token) (lexemes : List (Lexeme Token)) :
    foldLexeme inside l :: foldLexemes false lexemes = foldLexemes inside (l :: lexemes) := by
  rw [foldLexemes_false]
  rfl

theorem consQuoted_fold (inside : Bool) (c : Char) (lexemes : List (Lexeme Token)) :
    consQuoted (foldChar inside c) (foldLexemes (step inside c) lexemes) =
      foldLexemes inside (consQuoted c lexemes) := by
  cases lexemes <;> rfl

theorem consWord_fold {c : Char} (unquoted : c ≠ '"') (lexemes : List (Lexeme Token)) :
    consWord (foldChar false c) (foldLexemes false lexemes) =
      foldLexemes false (consWord c lexemes) := by
  cases lexemes with
  | nil => rfl
  | cons l more =>
    obtain ⟨kind, text⟩ := l
    cases kind with
    | word => simp [foldLexemes, foldLexeme, consWord, step_of_ne unquoted]
    | operator | quoted | gap => rfl

theorem map_foldLexemes {inside later : Bool} {f f' : List (Lexeme Token) → List (Lexeme Token)}
    (folds : ∀ lexemes, f' (foldLexemes later lexemes) = foldLexemes inside (f lexemes))
    (scanned : Except Error (List (Lexeme Token))) :
    f' <$> foldLexemes later <$> scanned = foldLexemes inside <$> f <$> scanned := by
  cases scanned with
  | error e => rfl
  | ok lexemes => exact congrArg Except.ok (folds lexemes)

theorem Operator.unquoted_of_ofPair? {c d : Char} {op : Operator}
    (found : Operator.ofPair? c d = some op) : c ≠ '"' ∧ d ≠ '"' := by
  constructor
  · rintro rfl
    simp [Operator.ofPair?] at found
  · rintro rfl
    simp [Operator.ofPair?] at found

theorem foldChar_of_isStray {c : Char} (stray : isStray c = true) (inside : Bool) :
    foldChar inside c = c := by
  simp only [isStray, Bool.or_eq_true, beq_iff_eq] at stray
  rcases stray with ((rfl | rfl) | rfl) | rfl <;> cases inside <;> rfl

theorem scanOne_fold (pos : Nat) (c : Char)
    {next next' : Option Nat → Except Error (List (Lexeme Token))}
    (nexts : ∀ opening?, opening?.isSome = step false c →
      next' opening? = foldLexemes opening?.isSome <$> next opening?) :
    scanOne pos (foldChar false c) next' = foldLexemes false <$> scanOne pos c next := by
  have plainly : c ≠ '"' → next' none = foldLexemes false <$> next none := fun unquoted =>
    nexts none (step_of_ne unquoted).symm
  simp only [scanOne, isGap_foldChar, foldChar_beq (by decide : '"'.isAlpha = false),
    isStray_foldChar, Operator.ofChar?_foldChar]
  split
  · rename_i gap
    have unquoted : c ≠ '"' := by
      rintro rfl
      cases gap
    rw [plainly unquoted]
    exact map_foldLexemes (foldLexemes_cons false ⟨.gap, [c]⟩) _
  · split
    · rename_i quote
      obtain rfl := beq_iff_eq.mp quote
      rw [nexts (some pos) rfl]
      exact map_foldLexemes (consQuoted_fold false '"') _
    · rename_i unquoted
      replace unquoted : c ≠ '"' := by simpa using unquoted
      rw [plainly unquoted]
      split
      · rename_i stray
        rw [foldChar_of_isStray stray]
        rfl
      · split
        · rename_i op _
          exact map_foldLexemes (foldLexemes_cons false ⟨.operator op, [c]⟩) _
        · exact map_foldLexemes (consWord_fold unquoted) _

/-- The lexemes of a folded text are the lexemes of the text, folded. A quote still open has its
literal continued by the first of them. -/
theorem scanFrom_fold (pos : Nat) (opening? : Option Nat) (t : Text) :
    scanFrom pos opening? (Quoted.fold opening?.isSome t) =
      foldLexemes opening?.isSome <$> scanFrom pos opening? t := by
  fun_induction scanFrom pos opening? t with
  | case1 pos => rfl
  | case2 pos opening => rfl
  | case3 pos opening c t quote ih =>
    obtain rfl := beq_iff_eq.mp quote
    simp only [Option.isSome_some, Option.isSome_none] at ih ⊢
    change scanFrom pos (some opening) ('"' :: Quoted.fold false t) = _
    rw [scanFrom, if_pos quote, ih]
    exact map_foldLexemes (foldLexemes_cons true ⟨.quoted, ['"']⟩) _
  | case4 pos opening c t unquoted ih =>
    simp only [Option.isSome_some] at ih ⊢
    change scanFrom pos (some opening) (c :: Quoted.fold (step true c) t) = _
    have inside : step true c = true := step_of_ne (by simpa using unquoted)
    rw [inside, scanFrom, if_neg unquoted, ih]
    have folded := consQuoted_fold true c
    rw [inside] at folded
    exact map_foldLexemes folded _
  | case5 pos c ih =>
    simp only [Option.isSome_none, fold_cons, fold_nil, scanFrom, utf8Size_foldChar]
    refine scanOne_fold pos c ?_
    intro opening? _
    exact ih opening?
  | case6 pos c d t op found ih =>
    simp only [Option.isSome_none, fold_cons, scanFrom, Operator.ofPair?_foldChar, found,
      utf8Size_foldChar] at ih ⊢
    obtain ⟨first, second⟩ := Operator.unquoted_of_ofPair? found
    rw [step_of_ne first, step_of_ne second, ih]
    have folded := foldLexemes_cons false ⟨.operator op, [c, d]⟩
    simp only [foldLexeme, fold_cons, fold_nil, step_of_ne first] at folded
    exact map_foldLexemes folded _
  | case7 pos c d t none ih =>
    simp only [Option.isSome_none, fold_cons, scanFrom, Operator.ofPair?_foldChar, none,
      utf8Size_foldChar]
    refine scanOne_fold pos c ?_
    intro opening? inside
    rw [← inside]
    exact ih opening?

/-- Each lexeme ends outside the literals, when the first starts inside of one or not. -/
def Closed (inside : Bool) : List (Lexeme Token) → Prop
  | [] => inside = false
  | l :: more => after inside l.text = false ∧ ∀ later ∈ more, Text.Paired later.text

theorem Closed.paired {lexemes : List (Lexeme Token)} (closed : Closed false lexemes) :
    ∀ l ∈ lexemes, Text.Paired l.text := by
  cases lexemes with
  | nil => exact List.forall_mem_nil _
  | cons l more => exact List.forall_mem_cons.mpr closed

theorem Closed.consQuoted {inside : Bool} {c : Char} {lexemes : List (Lexeme Token)}
    (closed : Closed (step inside c) lexemes) : Closed inside (consQuoted c lexemes) := by
  cases lexemes with
  | nil => exact ⟨closed, List.forall_mem_nil _⟩
  | cons l more => exact closed

theorem Closed.consWord {c : Char} {lexemes : List (Lexeme Token)} (unquoted : c ≠ '"')
    (closed : Closed false lexemes) : Closed false (consWord c lexemes) := by
  have single : after false [c] = false := step_of_ne unquoted
  cases lexemes with
  | nil => exact ⟨single, List.forall_mem_nil _⟩
  | cons l more =>
    obtain ⟨kind, text⟩ := l
    cases kind with
    | word =>
      refine ⟨?_, closed.2⟩
      rw [after_cons, step_of_ne unquoted]
      exact closed.1
    | operator | quoted | gap => exact ⟨single, closed.paired⟩

theorem scanOne_closed {pos : Nat} {c : Char}
    {next : Option Nat → Except Error (List (Lexeme Token))} {lexemes : List (Lexeme Token)}
    (nexts : ∀ opening? lexemes, next opening? = .ok lexemes → Closed opening?.isSome lexemes)
    (scanned : scanOne pos c next = .ok lexemes) : Closed false lexemes := by
  unfold scanOne at scanned
  split at scanned
  · rename_i gap
    obtain ⟨more, rest, rfl⟩ := Error.ok_of_map scanned
    refine ⟨step_of_ne ?_, (nexts _ _ rest).paired⟩
    rintro rfl
    cases gap
  · split at scanned
    · rename_i quote
      obtain rfl := beq_iff_eq.mp quote
      obtain ⟨more, rest, rfl⟩ := Error.ok_of_map scanned
      have closed : Closed (step false '"') more := nexts _ _ rest
      exact closed.consQuoted
    · rename_i unquoted
      replace unquoted : c ≠ '"' := by simpa using unquoted
      split at scanned
      · cases scanned
      · split at scanned
        · obtain ⟨more, rest, rfl⟩ := Error.ok_of_map scanned
          exact ⟨step_of_ne unquoted, (nexts _ _ rest).paired⟩
        · obtain ⟨more, rest, rfl⟩ := Error.ok_of_map scanned
          exact (nexts _ _ rest).consWord unquoted

theorem scanFrom_closed {pos : Nat} {opening? : Option Nat} {t : Text}
    {lexemes : List (Lexeme Token)} (scanned : scanFrom pos opening? t = .ok lexemes) :
    Closed opening?.isSome lexemes := by
  fun_induction scanFrom pos opening? t generalizing lexemes with
  | case1 pos =>
    cases scanned
    rfl
  | case2 pos opening => cases scanned
  | case3 pos opening c t quote ih =>
    obtain rfl := beq_iff_eq.mp quote
    obtain ⟨more, rest, rfl⟩ := Error.ok_of_map scanned
    exact ⟨rfl, (ih rest).paired⟩
  | case4 pos opening c t unquoted ih =>
    obtain ⟨more, rest, rfl⟩ := Error.ok_of_map scanned
    refine Closed.consQuoted ?_
    rw [step_of_ne (by simpa using unquoted)]
    exact ih rest
  | case5 pos c ih => exact scanOne_closed (fun opening? _ => ih opening?) scanned
  | case6 pos c d t op found ih =>
    obtain ⟨more, rest, rfl⟩ := Error.ok_of_map scanned
    obtain ⟨first, second⟩ := Operator.unquoted_of_ofPair? found
    refine ⟨?_, (ih rest).paired⟩
    simp [step_of_ne first, step_of_ne second]
  | case7 pos c d t none ih => exact scanOne_closed (fun opening? _ => ih opening?) scanned

/-- The piece with its operand folded. -/
def Piece.fold : Piece → Piece
  | .operand text => .operand (Quoted.fold false text)
  | .operator op => .operator op

theorem merge_fold {lexemes : List (Lexeme Token)} (paired : ∀ l ∈ lexemes, Text.Paired l.text) :
    merge (lexemes.map (foldLexeme false)) = (merge lexemes).map Piece.fold := by
  induction lexemes with
  | nil => rfl
  | cons l more ih =>
    obtain ⟨first, rest⟩ := List.forall_mem_cons.mp paired
    obtain ⟨kind, text⟩ := l
    have joined : ∀ behind : Text, Quoted.fold false text ++ Quoted.fold false behind =
        Quoted.fold false (text ++ behind) := by
      intro behind
      rw [fold_append, show after false text = false from first]
    specialize ih rest
    cases kind with
    | operator op => simp [foldLexeme, merge, Piece.fold, ih]
    | quoted | word | gap =>
      simp only [List.map_cons, foldLexeme, merge, ih]
      cases merge more with
      | nil => rfl
      | cons piece pieces =>
        cases piece with
        | operator op => rfl
        | operand behind => simp [Piece.fold, joined]

theorem Piece.isGap_fold (piece : Piece) : piece.fold.isGap = piece.isGap := by
  cases piece with
  | operator op => rfl
  | operand text =>
    have all : ∀ inside, (Quoted.fold inside text).all StepScript.isGap =
        text.all StepScript.isGap := by
      induction text with
      | nil => exact fun _ => rfl
      | cons c t ih => simp [ih]
    exact all false

theorem pieces_fold (text : Text) :
    pieces (Quoted.fold false text) = List.map Piece.fold <$> pieces text := by
  have scanned := scanFrom_fold 0 none text
  simp only [Option.isSome_none] at scanned
  rw [pieces, scan, scanned, pieces, scan]
  cases found : scanFrom 0 none text with
  | error e => rfl
  | ok lexemes =>
    have merged := merge_fold (scanFrom_closed found).paired
    rw [← foldLexemes_false] at merged
    simp only [Functor.map, Except.map, merged, List.filter_map]
    congr 3
    funext piece
    simp [Piece.isGap_fold]

end Condition

end StepScript
