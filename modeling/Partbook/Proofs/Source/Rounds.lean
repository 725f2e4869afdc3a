import Partbook.Proofs.Source.Lexing
import Partbook.Proofs.Source.Lines

/-!
The loop seen from behind: where it comes to the end of the text from one state, it does so from
the states that lead there. At the end of the text all states are alike, and so are the states
before and behind blanks. So what is said of a reader holds wherever the reader stops.
-/
namespace Partbook.Source

open Text Cursor

variable {cursor after : Cursor} {lexeme : Lexeme} {tokens more later : List (Lexeme × Action)}

namespace Rule

variable (read : Cursor → Option (Lexeme × Cursor))

@[simp] theorem find_token (action : Action) : (token read action).find cursor =
    (read cursor).map fun (text, after) => ([(text, action)], after) := rfl

@[simp] theorem find_skip :
    (skip read).find cursor = (read cursor).map fun (_, after) => ([], after) := rfl

@[simp] theorem find_ahead (starts : List Char → Bool) : (ahead starts).find cursor =
    if starts cursor.rest then some ([], cursor) else none := rfl

@[simp] theorem leaves_token (action : Action) : (token read action).leaves = 0 := rfl

@[simp] theorem enters_token (action : Action) : (token read action).enters = [] := rfl

@[simp] theorem leaves_skip : (skip read).leaves = 0 := rfl

@[simp] theorem enters_skip : (skip read).enters = [] := rfl

@[simp] theorem leaves_ahead (starts : List Char → Bool) : (ahead starts).leaves = 0 := rfl

@[simp] theorem enters_ahead (starts : List Char → Bool) : (ahead starts).enters = [] := rfl

end Rule

@[simp] theorem firstRule?_nil (cursor : Cursor) : firstRule? [] cursor = none := rfl

@[simp] theorem firstRule?_cons (rule : Rule) (rules : List Rule) (cursor : Cursor) :
    firstRule? (rule :: rules) cursor =
      ((rule.find cursor).map fun found => (rule, found)).or (firstRule? rules cursor) := by
  unfold firstRule?
  rw [List.findSome?_cons]
  cases rule.find cursor <;> rfl

theorem isSome_firstRule? (rules : List Rule) (cursor : Cursor) :
    (firstRule? rules cursor).isSome = rules.any fun rule => (rule.find cursor).isSome := by
  induction rules with
  | nil => rfl
  | cons rule rules ih => simp [ih]

/-! ## Where readers begin -/

namespace Cursor

@[simp] theorem next?_cons (p : Char → Bool) (pos : Nat) (c : Char) (rest : List Char) :
    (Cursor.mk pos (c :: rest)).next? p =
      if p c then some ((⟨pos, [c]⟩ : Lexeme), (⟨pos + 1, rest⟩ : Cursor)) else none := rfl

theorem next?_sign {sign : Char} (read : cursor.next? (· == sign) = some (lexeme, after)) :
    ∃ rest, cursor.rest = sign :: rest ∧ cursor.cut [sign] rest = (lexeme, after) := by
  obtain ⟨c, rest, parts, isSign, same⟩ := next?_eq_some read
  obtain rfl : c = sign := by simpa using isSign
  exact ⟨rest, parts, same⟩

theorem isSome_next? (p : Char → Bool) (cursor : Cursor) :
    (cursor.next? p).isSome = cursor.rest.head?.any p := by
  obtain ⟨pos, rest⟩ := cursor
  cases rest with
  | nil => rfl
  | cons c rest => cases holds : p c <;> simp [next?, holds]

theorem isSome_run? (p : Char → Bool) (cursor : Cursor) :
    (cursor.run? p).isSome = cursor.rest.head?.any p := by
  obtain ⟨pos, rest⟩ := cursor
  cases rest with
  | nil => rfl
  | cons c rest => cases holds : p c <;> simp [run?, holds]

theorem isSome_comment? (cursor : Cursor) :
    cursor.comment?.isSome = cursor.rest.head?.any (· == '#') := by
  obtain ⟨pos, rest⟩ := cursor
  cases rest with
  | nil => rfl
  | cons c rest => by_cases sign : c = '#' <;> simp [comment?_eq, sign]

theorem isSome_word? (cursor : Cursor) : cursor.word?.isSome = cursor.rest.head?.any isLetter := by
  obtain ⟨pos, rest⟩ := cursor
  cases rest with
  | nil => rfl
  | cons c rest => cases letter : isLetter c <;> simp [word?, letter]

theorem isSome_attributeName? (cursor : Cursor) :
    cursor.attributeName?.isSome = cursor.rest.head?.any isLetter := by
  rw [← isSome_word?, attributeName?]
  cases cursor.word? with
  | none => rfl
  | some found =>
    simp only [Option.bind_eq_bind, Option.bind_some]
    split <;> rfl

theorem isSome_restLetter? (pos : Nat) (c : Char) (rest : List Char) :
    (Cursor.mk pos (c :: rest)).restLetter?.isSome = (c == 'r' && !rest.head?.any isLetter) := by
  by_cases letter : c = 'r'
  · simp only [restLetter?, next?_cons, letter, beq_self_eq_true, if_true, Option.bind_eq_bind,
      Option.bind_some, Bool.true_and]
    rw [← isSome_next? isLetter ⟨pos + 1, rest⟩]
    cases (Cursor.mk (pos + 1) rest).next? isLetter <;> rfl
  · simp [restLetter?, next?, letter]

theorem isSome_octaveTokens? (pos : Nat) (c : Char) (rest : List Char) :
    (Cursor.mk pos (c :: rest)).octaveTokens?.isSome = (c == 'o' && rest.head?.any isDecimal) := by
  by_cases letter : c = 'o'
  · simp only [octaveTokens?, next?_cons, letter, beq_self_eq_true, if_true, Option.bind_eq_bind,
      Option.bind_some, Bool.true_and]
    rw [← isSome_run? isDecimal ⟨pos + 1, rest⟩]
    cases (Cursor.mk (pos + 1) rest).run? isDecimal <;> rfl
  · simp [octaveTokens?, next?, letter]

theorem run?_skipBlanks (cursor : Cursor) : cursor.skipBlanks.run? isBlank = none := by
  rw [← Option.isNone_iff_eq_none, ← Option.not_isSome, isSome_run?]
  have visible := cursor.visible_skipBlanks
  cases first : cursor.skipBlanks.rest.head? with
  | none => rfl
  | some c => simpa using visible c first

theorem skipBlanks_of_run? {blanks : Lexeme} (read : cursor.run? isBlank = some (blanks, after)) :
    cursor.skipBlanks = after := by
  unfold run? at read
  split at read
  · cases read
  · exact congrArg Prod.snd (Option.some.inj read)

theorem skipBlanks_of_none (none : cursor.run? isBlank = none) : cursor.skipBlanks = cursor := by
  obtain ⟨pos, rest⟩ := cursor
  unfold run? at none
  split at none
  · rename_i empty
    have whole := List.takeWhile_append_dropWhile (p := isBlank) (l := rest)
    rw [show rest.takeWhile isBlank = [] from empty, List.nil_append] at whole
    simp only [skipBlanks, run, cut]
    rw [show rest.takeWhile isBlank = [] from empty, whole]
    rfl
  · cases none

end Cursor

namespace Lexer

variable {lexer next last : Lexer} {mode : Mode} {outer modes : List Mode}

/-! ## The end of the text -/

theorem firstRule?_end (mode : Mode) (pos : Nat) : firstRule? mode.rules ⟨pos, []⟩ = none := by
  cases mode <;> rfl

theorem leaves_pos {leaves : Nat} (left : mode.leftBy? = some leaves) : 0 < leaves := by
  cases mode <;> cases left <;> decide

theorem lexes_end (modes : List Mode) (pos : Nat) : Lexes ⟨modes, ⟨pos, []⟩⟩ [] := by
  cases modes with
  | nil => exact .done rfl rfl
  | cons mode outer =>
    cases left : mode.leftBy? with
    | none => exact .done (by simp [step, firstRule?_end, left, junk?, splitAt]) rfl
    | some leaves =>
      have stepped : step ⟨mode :: outer, ⟨pos, []⟩⟩ =
          some ([], ⟨(mode :: outer).drop leaves, ⟨pos, []⟩⟩) := by
        simp [step, firstRule?_end, left]
      exact .step stepped (lexes_end _ pos)
-- nothing is read any more, but each of these rounds leaves a mode
termination_by modes.length
decreasing_by
  have some := leaves_pos left
  simp only [List.length_drop, List.length_cons]
  omega

theorem Lexes.of_end {modes : List Mode} (ended : cursor.rest = []) : Lexes ⟨modes, cursor⟩ [] := by
  obtain ⟨pos, rest⟩ := cursor
  cases ended
  exact lexes_end modes pos

theorem Lexes.of_step (lexes : Lexes lexer later) (stepped : lexer.step = some (tokens, next)) :
    ∃ more, later = tokens ++ more ∧ Lexes next more := by
  cases lexes with
  | done ends whole => cases ends.symm.trans stepped
  | step first more =>
    cases first.symm.trans stepped
    exact ⟨_, rfl, more⟩

theorem Lexes.unique (lexes : Lexes lexer tokens) (other : Lexes lexer more) : tokens = more := by
  induction lexes generalizing more with
  | done ends whole =>
    cases other with
    | done ends whole => rfl
    | step first more => cases ends.symm.trans first
  | step first later ih =>
    obtain ⟨rest, rfl, behind⟩ := other.of_step first
    rw [ih behind]

/-! ## What a state gives before another -/

/-- From `lexer` the loop gives these tokens and then what it gives from `next`. -/
def Yields (lexer : Lexer) (tokens : List (Lexeme × Action)) (next : Lexer) : Prop :=
  ∀ later, Lexes next later → Lexes lexer (tokens ++ later)

namespace Yields

theorem refl (lexer : Lexer) : Yields lexer [] lexer := fun _ lexes => lexes

theorem trans (first : Yields lexer tokens next) (second : Yields next more last) :
    Yields lexer (tokens ++ more) last := fun later lexes => by
  rw [List.append_assoc]
  exact first _ (second later lexes)

theorem before (first : Yields lexer [] next) (second : Yields next more last) :
    Yields lexer more last := fun later lexes => first _ (second later lexes)

theorem behind (first : Yields lexer tokens next) (second : Yields next [] last) :
    Yields lexer tokens last := fun later lexes => first _ (second later lexes)

theorem of_step (stepped : lexer.step = some (tokens, next)) : Yields lexer tokens next :=
  fun _ more => .step stepped more

theorem of_end (ended : lexer.cursor.rest = []) (ended' : next.cursor.rest = []) :
    Yields lexer [] next := by
  intro later lexes
  cases lexes.unique (.of_end ended')
  exact .of_end ended

theorem many {α : Type} {step : Cursor → Option (α × Cursor)} (consuming : Consuming step)
    {found : α → List (Lexeme × Action)}
    (each : ∀ cursor item after, step cursor = some (item, after) →
      Yields ⟨modes, cursor⟩ (found item) ⟨modes, after⟩) (cursor : Cursor) :
    Yields ⟨modes, cursor⟩ ((cursor.many step).1.flatMap found)
      ⟨modes, (cursor.many step).2⟩ := by
  induction cursor using Cursor.many.induct step with
  | case1 cursor fails =>
    rw [many_of_none fails]
    exact .refl _
  | case2 cursor item after read shorter ih =>
    rw [many_of_some consuming read, List.flatMap_cons]
    exact (each cursor item after read).trans ih
  | case3 cursor item after read longer => exact absurd (consuming _ _ _ read) longer

end Yields

/-! ## Blanks -/

theorem quiet_of_isBlank {c : Char} (blank : isBlank c) :
    isLetter c = false ∧ isDecimal c = false ∧ isPitch c = false ∧
      ∀ sign ∈ ['r', 'o', '>', '<', '|', '/', '(', ')', ',', ':', '"', '#'], c ≠ sign := by
  have letter : isLetter c = false := by
    cases letter : isLetter c with
    | false => rfl
    | true => cases (isBlank_of_isLetter letter).symm.trans blank
  have visible : ['r', 'o', '>', '<', '|', '/', '(', ')', ',', ':', '"', '#'].all
      (fun sign => !isBlank sign) := by decide
  simp only [List.all_eq_true, Bool.not_eq_true'] at visible
  refine ⟨letter, isDecimal_of_isNameChar (isNameChar_of_isBlank blank), ?_, ?_⟩
  · cases pitch : isPitch c with
    | false => rfl
    | true => cases letter.symm.trans (isLetter_of_isPitch pitch)
  · rintro sign member rfl
    cases (visible c member).symm.trans blank

theorem step_blanks {blanks : Lexeme} (stays : mode.leftBy? = none)
    (read : cursor.run? isBlank = some (blanks, after)) :
    step ⟨mode :: outer, cursor⟩ = some ([], ⟨mode :: outer, after⟩) := by
  -- in every mode the rules before the one for blanks look for a character that is none
  obtain ⟨pos, rest⟩ := cursor
  cases rest with
  | nil => cases read
  | cons c rest =>
    have blank : isBlank c := by
      have begins := isSome_run? isBlank ⟨pos, c :: rest⟩
      simpa [read] using begins
    obtain ⟨letter, digit, pitch, signs⟩ := quiet_of_isBlank blank
    simp only [List.forall_mem_cons, List.not_mem_nil, false_implies, implies_true,
      and_true] at signs
    have noCall := not_startsCall_of_head letter rest
    have noDigits : (Cursor.mk pos (c :: rest)).run? isDecimal = none := by
      simp [run?, digit]
    have noName := name?_eq_none letter pos rest
    cases mode with
    | root => simp [step, Mode.rules, callRule, groupRule, gapRules, noCall, signs, read]
    | part => simp [step, Mode.rules, callRule, gapRules, noCall, read]
    | fragment =>
      simp [step, Mode.rules, eventRules, groupRule, gapRules, pitch, restLetter?, octaveTokens?,
        signs, read]
    | musicData =>
      simp [step, Mode.rules, eventRules, groupRule, gapRules, noCall, pitch, restLetter?,
        octaveTokens?, signs, read]
    | instrumentCall =>
      simp [step, Mode.rules, noName, nicknameTokens?, wholeQuotation?, quoted?, signs, read]
    | attributeChanges =>
      simp [step, Mode.rules, gapRules, attributeName?, word?, letter, signs, read]
    | attributeValue =>
      simp [step, Mode.rules, gapRules, noDigits, word?, letter, signs, read]
    | instrument => cases stays
    | note => cases stays
    | rest => cases stays
    | duration => cases stays

theorem yields_blanks (stays : mode.leftBy? = none) (cursor : Cursor) :
    Yields ⟨mode :: outer, cursor⟩ [] ⟨mode :: outer, cursor.skipBlanks⟩ := by
  cases read : cursor.run? isBlank with
  | none =>
    rw [skipBlanks_of_none read]
    exact .refl _
  | some found =>
    rw [skipBlanks_of_run? read]
    exact .of_step (step_blanks stays read)

theorem yields_skipped (stays : mode.leftBy? = none) (cursor : Cursor) :
    Yields ⟨mode :: outer, cursor.skipBlanks⟩ [] ⟨mode :: outer, cursor⟩ := by
  intro later lexes
  cases read : cursor.run? isBlank with
  | none =>
    rw [skipBlanks_of_none read]
    exact lexes
  | some found =>
    rw [skipBlanks_of_run? read]
    obtain ⟨more, rfl, behind⟩ := lexes.of_step (step_blanks stays read)
    exact behind

theorem yields_ended (stays : mode.leftBy? = none) (ended : cursor.skipBlanks.rest = []) :
    Yields ⟨modes, cursor.skipBlanks⟩ [] ⟨mode :: outer, cursor⟩ := by
  have alike : Yields ⟨modes, cursor.skipBlanks⟩ [] ⟨mode :: outer, cursor.skipBlanks⟩ :=
    .of_end ended ended
  exact alike.before (yields_skipped stays cursor)

theorem yields_left (stays : mode.leftBy? = none)
    (left : step ⟨modes, cursor.skipBlanks⟩ = some ([], ⟨mode :: outer, cursor.skipBlanks⟩)) :
    Yields ⟨modes, cursor.skipBlanks⟩ [] ⟨mode :: outer, cursor⟩ :=
  (Yields.of_step left).before (yields_skipped stays cursor)

/-! ## Text that is none -/

theorem yields_junk {starts : List Char → Bool} (stays : mode.leftBy? = none)
    (same : ∀ pos text, (firstRule? mode.rules ⟨pos, text⟩).isSome = starts text)
    (read : cursor.junk? starts = some (lexeme, after)) :
    Yields ⟨mode :: outer, cursor⟩ [(lexeme, .invalid)] ⟨mode :: outer, after⟩ := by
  have other : starts cursor.rest = false := by
    cases here : starts cursor.rest with
    | false => rfl
    | true =>
      cases parts : cursor.rest <;> simp [junk?, splitAt, parts, parts ▸ here] at read
  have none : firstRule? mode.rules cursor = none := by
    rw [← Option.isNone_iff_eq_none, ← Option.not_isSome, same, other]
    rfl
  have all : (fun text => (firstRule? mode.rules ⟨0, text⟩).isSome) = starts := funext (same 0)
  exact .of_step (by simp [step, none, stays, all, read])

/-- Where there is neither a rule that finds something nor text that is none, the text ends. -/
theorem ended_of_idle {starts : List Char → Bool}
    (same : ∀ pos text, (firstRule? mode.rules ⟨pos, text⟩).isSome = starts text)
    (idle : firstRule? mode.rules cursor = none) (fails : cursor.junk? starts = none) :
    cursor.rest = [] := by
  have other : starts cursor.rest = false := by
    rw [← same cursor.pos, idle]
    rfl
  exact not_not.mp fun nonempty => junk?_ne_none nonempty other fails

end Lexer

end Partbook.Source
