import Mathlib.Data.List.TakeWhile
import Partbook.Form.Basic
import Partbook.Proofs.Text.Numeral

/-!
Printed forms. The expressions that music is handed on as are told apart by what they are printed
as. In what is printed, the first character of an argument tells its kind, and an argument goes on
up to a blank or a closing parenthesis that belongs to no text inside.
-/
namespace Partbook.Form

def isSymbolName : List Char → Bool
  | [] => false
  | c :: rest => c.isLower && rest.all fun c => c.isLower || c.isDigit || c == '-'

mutual

/-- Integers, texts, proper symbols, and expressions of all these. -/
def isArgument : Form → Bool
  | atom (.int _) | atom (.text _) => true
  | atom _ => false
  | symbol name => isSymbolName name.toList
  | apply (symbol name) args => isSymbolName name.toList && areArguments args
  | apply _ _ => false

def areArguments : List Form → Bool
  | [] => true
  | form :: forms => form.isArgument && areArguments forms

end

def isExpression : Form → Bool
  | apply head args => (apply head args).isArgument
  | _ => false

/-! ## Where arguments end -/

def Ends (text : List Char) : Prop := ∀ c ∈ text.head?, c = ' ' ∨ c = ')'

def Solid (text : List Char) : Prop := ∀ c ∈ text, c ≠ ' ' ∧ c ≠ ')'

variable {text text' rest rest' : List Char}

theorem takeWhile_solid (solid : Solid text) (ends : Ends rest) :
    (text ++ rest).takeWhile (fun c => c != ' ' && c != ')') = text := by
  have inside : text.takeWhile (fun c => c != ' ' && c != ')') = text :=
    List.takeWhile_eq_self_iff.mpr fun c member => by simpa using solid c member
  rw [List.takeWhile_append, inside, if_pos rfl]
  cases rest with
  | nil => rw [List.takeWhile_nil, List.append_nil]
  | cons c rest =>
    rw [List.takeWhile_cons_of_neg, List.append_nil]
    rcases ends c rfl with rfl | rfl <;> decide

theorem solid_append_inj (solid : Solid text) (solid' : Solid text') (ends : Ends rest)
    (ends' : Ends rest') (same : text ++ rest = text' ++ rest') : text = text' ∧ rest = rest' := by
  have first : text = text' := by
    rw [← takeWhile_solid solid ends, same, takeWhile_solid solid' ends']
  subst first
  exact ⟨rfl, List.append_cancel_left same⟩

theorem solid_symbol (named : isSymbolName text) : Solid text := by
  have small (c : Char) (proper : (c.isLower || c.isDigit || c == '-') = true) :
      c ≠ ' ' ∧ c ≠ ')' := by
    constructor <;>
    · rintro rfl
      exact absurd proper (by decide)
  cases text with
  | nil => cases named
  | cons first rest =>
    simp only [isSymbolName, Bool.and_eq_true, List.all_eq_true] at named
    exact List.forall_mem_cons.mpr ⟨small first (by simp [named.1]), fun c member =>
      small c (named.2 c member)⟩

theorem exists_int (n : Int) : ∃ c rest, (toString n).toList = c :: rest ∧
    ∀ d ∈ c :: rest, d.isDigit ∨ d = '-' := by
  have digits (n : Nat) : ∃ c rest, n.repr.toList = c :: rest ∧ ∀ d ∈ c :: rest, d.isDigit := by
    rw [Nat.toList_repr]
    obtain ⟨c, rest, parts⟩ := List.exists_cons_of_ne_nil (Nat.toDigits_ne_nil (n := n) (b := 10))
    refine ⟨c, rest, parts, fun d member => ?_⟩
    rw [← parts] at member
    exact Nat.isDigit_of_mem_toDigits (by decide) (by decide) member
  cases n with
  | ofNat n =>
    obtain ⟨c, rest, parts, all⟩ := digits n
    exact ⟨c, rest, parts, fun d member => .inl (all d member)⟩
  | negSucc n =>
    obtain ⟨c, rest, parts, all⟩ := digits (n + 1)
    exact ⟨'-', c :: rest, by rw [Text.toList_negSucc, parts], List.forall_mem_cons.mpr
      ⟨.inr rfl, fun d member => .inl (all d member)⟩⟩

theorem solid_int (n : Int) : Solid (toString n).toList := by
  obtain ⟨c, rest, parts, all⟩ := exists_int n
  rw [parts]
  intro d member
  rcases all d member with digit | rfl
  · constructor <;>
    · rintro rfl
      exact absurd digit (by decide)
  · decide

/-! ## Texts -/

theorem guard_cases (c : Char) : guard c = ['\\', c] ∨ guard c = [c] ∧ c ≠ '"' ∧ c ≠ '\\' := by
  unfold guard
  split
  · exact .inl rfl
  · rename_i plain
    simp only [Bool.or_eq_true, beq_iff_eq, not_or] at plain
    exact .inr ⟨rfl, plain⟩

theorem guard_append_inj {c c' : Char} (same : guard c ++ text = guard c' ++ text') :
    c = c' ∧ text = text' := by
  rcases guard_cases c with guarded | ⟨plain, -, other⟩ <;>
    rcases guard_cases c' with guarded' | ⟨plain', -, other'⟩
  · rw [guarded, guarded'] at same
    simpa using same
  · rw [guarded, plain'] at same
    exact absurd (List.cons.inj same).1.symm other'
  · rw [plain, guarded'] at same
    exact absurd (List.cons.inj same).1 other
  · rw [plain, plain'] at same
    simpa using same

theorem guard_append_ne {c : Char} : guard c ++ text ≠ '"' :: rest := by
  intro same
  rcases guard_cases c with guarded | ⟨plain, other, -⟩
  · rw [guarded] at same
    exact absurd (List.cons.inj same).1 (by decide)
  · rw [plain] at same
    exact other (List.cons.inj same).1

theorem guarded_append_inj (same : text.flatMap guard ++ '"' :: rest =
    text'.flatMap guard ++ '"' :: rest') : text = text' ∧ rest = rest' := by
  induction text generalizing text' with
  | nil =>
    cases text' with
    | nil => exact ⟨rfl, (List.cons.inj same).2⟩
    | cons c' text' =>
      rw [List.flatMap_cons, List.append_assoc] at same
      exact absurd same.symm guard_append_ne
  | cons c text ih =>
    cases text' with
    | nil =>
      rw [List.flatMap_cons, List.append_assoc] at same
      exact absurd same guard_append_ne
    | cons c' text' =>
      rw [List.flatMap_cons, List.flatMap_cons, List.append_assoc, List.append_assoc] at same
      obtain ⟨rfl, later⟩ := guard_append_inj same
      obtain ⟨rfl, behind⟩ := ih later
      exact ⟨rfl, behind⟩

/-! ## Arguments -/

inductive Shape where
  | text
  | number
  | symbol
  | expression

def Shape.ofChar (c : Char) : Shape :=
  if c = '"' then .text else if c = '(' then .expression else if c.isLower then .symbol else .number

def shape : Form → Shape
  | atom (.text _) => .text
  | atom _ => .number
  | symbol _ => .symbol
  | apply _ _ => .expression

theorem isLower_of_isDigit {c : Char} (digit : c.isDigit) : c.isLower = false := by
  obtain ⟨-, high⟩ := Bool.and_eq_true_iff.mp digit
  apply Bool.eq_false_iff.mpr
  intro small
  obtain ⟨low, -⟩ := Bool.and_eq_true_iff.mp small
  exact absurd (UInt32.le_trans (of_decide_eq_true low) (of_decide_eq_true high)) (by decide)

theorem shape_inner {form : Form} (proper : form.isArgument) :
    ∃ c rest, form.inner.toList = c :: rest ∧ Shape.ofChar c = form.shape := by
  cases form with
  | atom value =>
    cases value with
    | text s =>
      refine ⟨'"', s.toList.flatMap guard ++ ['"'], ?_, rfl⟩
      simp [inner, doubleQuote]
    | int n =>
      obtain ⟨c, rest, parts, all⟩ := exists_int n
      refine ⟨c, rest, parts, ?_⟩
      rcases all c List.mem_cons_self with digit | rfl
      · have quote : c ≠ '"' := by
          rintro rfl
          exact absurd digit (by decide)
        have bracket : c ≠ '(' := by
          rintro rfl
          exact absurd digit (by decide)
        have small : c.isLower = false := isLower_of_isDigit digit
        simp [Shape.ofChar, quote, bracket, small, shape]
      · rfl
    | _ => cases proper
  | symbol name =>
    simp only [isArgument] at proper
    cases chars : name.toList with
    | nil =>
      rw [chars] at proper
      cases proper
    | cons c rest =>
      rw [chars] at proper
      simp only [isSymbolName, Bool.and_eq_true] at proper
      refine ⟨c, rest, chars, ?_⟩
      have quote : c ≠ '"' := by
        rintro rfl
        exact absurd proper.1 (by decide)
      have bracket : c ≠ '(' := by
        rintro rfl
        exact absurd proper.1 (by decide)
      simp [Shape.ofChar, quote, bracket, proper.1, shape]
  | apply head args =>
    exact ⟨'(', (head.inner ++ innerAll args ++ ")").toList, by simp [inner], rfl⟩

theorem shape_eq {form form' : Form} (proper : form.isArgument) (proper' : form'.isArgument)
    (same : form.inner.toList ++ rest = form'.inner.toList ++ rest') :
    form.shape = form'.shape := by
  obtain ⟨c, more, parts, is⟩ := shape_inner proper
  obtain ⟨c', more', parts', is'⟩ := shape_inner proper'
  rw [parts, parts'] at same
  rw [← is, ← is', (List.cons.inj same).1]

theorem innerAll_cons (form : Form) (forms : List Form) (rest : List Char) :
    (innerAll (form :: forms)).toList ++ rest =
      ' ' :: (form.inner.toList ++ ((innerAll forms).toList ++ rest)) := by
  simp [innerAll]

theorem inner_apply (name : String) (args : List Form) (rest : List Char) :
    (apply (symbol name) args).inner.toList ++ rest =
      '(' :: (name.toList ++ ((innerAll args).toList ++ ')' :: rest)) := by
  simp [inner]

theorem ends_args (forms : List Form) (rest : List Char) :
    Ends ((innerAll forms).toList ++ ')' :: rest) := by
  cases forms with
  | nil =>
    rintro _ ⟨⟩
    exact .inr rfl
  | cons form forms =>
    rw [innerAll_cons]
    rintro _ ⟨⟩
    exact .inl rfl

theorem text_append_inj {s : String} {form : Form} (proper : form.isArgument)
    (same : (atom (.text s)).inner.toList ++ rest = form.inner.toList ++ rest') :
    atom (.text s) = form ∧ rest = rest' := by
  have shape := shape_eq rfl proper same
  cases form with
  | atom value =>
    cases value with
    | text s' =>
      simp only [inner, doubleQuote, String.toList_ofList, List.cons_append, List.append_assoc,
        List.cons.injEq, true_and] at same
      obtain ⟨text, behind⟩ := guarded_append_inj same
      exact ⟨by rw [String.toList_inj.mp text], behind⟩
    | _ => cases shape
  | symbol name | apply head args => cases shape

theorem int_append_inj {n : Int} {form : Form} (proper : form.isArgument) (ends : Ends rest)
    (ends' : Ends rest')
    (same : (atom (.int n)).inner.toList ++ rest = form.inner.toList ++ rest') :
    atom (.int n) = form ∧ rest = rest' := by
  have shape := shape_eq rfl proper same
  cases form with
  | atom value =>
    cases value with
    | text s' => cases shape
    | int n' =>
      obtain ⟨digits, behind⟩ := solid_append_inj (solid_int n) (solid_int n') ends ends' same
      have read := congrArg Text.intOfChars? digits
      rw [Text.intOfChars?_toString, Text.intOfChars?_toString, Option.some.injEq] at read
      exact ⟨by rw [read], behind⟩
    | _ => cases proper
  | symbol name | apply head args => cases shape

theorem symbol_append_inj {name : String} {form : Form} (named : (symbol name).isArgument)
    (proper : form.isArgument) (ends : Ends rest) (ends' : Ends rest')
    (same : (symbol name).inner.toList ++ rest = form.inner.toList ++ rest') :
    symbol name = form ∧ rest = rest' := by
  have shape := shape_eq named proper same
  cases form with
  | atom value => cases value <;> cases shape
  | symbol name' =>
    obtain ⟨text, behind⟩ :=
      solid_append_inj (solid_symbol named) (solid_symbol proper) ends ends' same
    exact ⟨by rw [String.toList_inj.mp text], behind⟩
  | apply head args => cases shape

theorem head_append_inj {name : String} {args : List Form} {form : Form}
    (proper : (apply (symbol name) args).isArgument) (proper' : form.isArgument)
    (same : (apply (symbol name) args).inner.toList ++ rest = form.inner.toList ++ rest') :
    ∃ args', form = apply (symbol name) args' ∧ areArguments args ∧ areArguments args' ∧
      (innerAll args).toList ++ ')' :: rest = (innerAll args').toList ++ ')' :: rest' := by
  have shape := shape_eq proper proper' same
  cases form with
  | atom value => cases value <;> cases shape
  | symbol name' => cases shape
  | apply head args' =>
    cases head with
    | symbol name' =>
      rw [inner_apply, inner_apply, List.cons.injEq] at same
      simp only [isArgument, Bool.and_eq_true] at proper proper'
      obtain ⟨text, later⟩ := solid_append_inj (solid_symbol proper.1) (solid_symbol proper'.1)
        (ends_args args _) (ends_args args' _) same.2
      exact ⟨args', by rw [String.toList_inj.mp text], proper.2, proper'.2, later⟩
    | _ => cases proper'

mutual

/-- What is printed of an argument tells the argument and the place where it ends. -/
theorem inner_append_inj : ∀ (form : Form) {form' : Form} {rest rest' : List Char},
    form.isArgument → form'.isArgument → Ends rest → Ends rest' →
    form.inner.toList ++ rest = form'.inner.toList ++ rest' → form = form' ∧ rest = rest'
  | atom value, _, _, _, proper, proper', ends, ends', same => by
    cases value with
    | text s => exact text_append_inj proper' same
    | int n => exact int_append_inj proper' ends ends' same
    | _ => cases proper
  | symbol name, _, _, _, proper, proper', ends, ends', same =>
    symbol_append_inj proper proper' ends ends' same
  | apply head args, _, _, _, proper, proper', _, _, same => by
    cases head with
    | symbol name =>
      obtain ⟨args', rfl, all, all', later⟩ := head_append_inj proper proper' same
      obtain ⟨rfl, behind⟩ := innerAll_append_inj args all all' later
      exact ⟨rfl, behind⟩
    | _ => cases proper

theorem innerAll_append_inj : ∀ (forms : List Form) {forms' : List Form} {rest rest' : List Char},
    areArguments forms → areArguments forms' →
    (innerAll forms).toList ++ ')' :: rest = (innerAll forms').toList ++ ')' :: rest' →
    forms = forms' ∧ rest = rest'
  | [], forms', _, _, _, _, same => by
    cases forms' with
    | nil => exact ⟨rfl, (List.cons.inj same).2⟩
    | cons form' forms' =>
      rw [innerAll_cons] at same
      exact absurd (List.cons.inj same).1 (by decide)
  | form :: forms, forms', _, _, proper, proper', same => by
    cases forms' with
    | nil =>
      rw [innerAll_cons] at same
      exact absurd (List.cons.inj same).1 (by decide)
    | cons form' forms' =>
      rw [innerAll_cons, innerAll_cons, List.cons.injEq] at same
      simp only [areArguments, Bool.and_eq_true] at proper proper'
      obtain ⟨rfl, later⟩ := inner_append_inj form proper.1 proper'.1 (ends_args forms _)
        (ends_args forms' _) same.2
      obtain ⟨rfl, behind⟩ := innerAll_append_inj forms proper.2 proper'.2 later
      exact ⟨rfl, behind⟩

end

/-- Expressions are printed alike only if they are the same, argument by argument. -/
theorem shown_inj {form form' : Form} (proper : form.isExpression) (proper' : form'.isExpression) :
    form.shown = form'.shown ↔ form = form' := by
  cases form with
  | atom value | symbol name => cases proper
  | apply head args =>
    cases form' with
    | atom value | symbol name => cases proper'
    | apply head' args' =>
      refine ⟨fun same => ?_, congrArg shown⟩
      have alike : (apply head args).inner.toList ++ [] = (apply head' args').inner.toList ++ [] :=
        congrArg (fun text : String => text.toList ++ []) same
      exact (inner_append_inj _ proper proper' (by simp [Ends]) (by simp [Ends]) alike).1

def quotation : Form := apply (symbol "word") [atom (.text "a\" \"b) -1"), symbol "x-1"]

def pieces : Form :=
  apply (symbol "word") [atom (.text "a"), atom (.text "b) -1"), apply (symbol "x") [atom (.int 1)]]

theorem shown_quotation : quotation.isExpression ∧ pieces.isExpression ∧
    quotation.shown ≠ pieces.shown := by
  have proper : quotation.isExpression ∧ pieces.isExpression := by decide +kernel
  refine ⟨proper.1, proper.2, fun same => ?_⟩
  have equal := (shown_inj proper.1 proper.2).mp same
  simp [quotation, pieces] at equal

end Partbook.Form
