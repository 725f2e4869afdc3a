import Partbook.Proofs.Lexing

/-!
Where tokens begin. No token begins with a blank: each rule finds something only where a visible
character stands, and text that is none begins where the rule for blanks finds nothing.
-/
namespace Partbook.Source

open Text Cursor

def Lexeme.Visible (lexeme : Lexeme) : Prop := ∀ c ∈ lexeme.chars.head?, isBlank c = false

variable {cursor after : Cursor} {lexeme : Lexeme} {tokens : List (Lexeme × Action)}

section

variable {p : Char → Bool} (visible : ∀ c, p c → isBlank c = false)

include visible

theorem visible_next? (read : cursor.next? p = some (lexeme, after)) : lexeme.Visible := by
  obtain ⟨c, rest, -, holds, same⟩ := next?_eq_some read
  cases same
  rintro _ ⟨⟩
  exact visible c holds

theorem visible_run? (read : cursor.run? p = some (lexeme, after)) : lexeme.Visible :=
  fun c first => visible c ((takes_run? read).2 c (List.mem_of_mem_head? first))

end

theorem visible_decimal (c : Char) (digit : isDecimal c) : isBlank c = false :=
  isBlank_of_isDecimal digit

theorem visible_sign {sign : Char} (visible : isBlank sign = false) (c : Char)
    (same : c == sign) : isBlank c = false := by
  rwa [eq_of_beq same]

theorem visible_accidental (c : Char) (sign : isAccidental c) : isBlank c = false := by
  simp only [isAccidental, Bool.or_eq_true, beq_iff_eq] at sign
  rcases sign with (rfl | rfl) | rfl <;> decide

theorem visible_pitch (c : Char) (pitch : isPitch c) : isBlank c = false :=
  isBlank_of_isLetter (isLetter_of_isPitch pitch)

theorem visible_comment? (read : cursor.comment? = some (lexeme, after)) : lexeme.Visible := by
  unfold comment? at read
  split at read
  · rename_i rest parts
    cases read
    intro c first
    obtain rfl : '#' = c := by simpa [run, cut, parts] using first
    decide
  · cases read

theorem visible_word? (read : cursor.word? = some (lexeme, after)) : lexeme.Visible := by
  unfold word? at read
  split at read
  · split at read
    · rename_i letter
      cases read
      rintro _ ⟨⟩
      exact isBlank_of_isLetter letter
    · cases read
  · cases read

theorem visible_name? (read : cursor.name? = some (lexeme, after)) : lexeme.Visible := by
  unfold name? at read
  split at read
  · split at read
    · rename_i letters
      cases read
      rintro _ ⟨⟩
      exact isBlank_of_isLetter (Bool.and_eq_true_iff.mp letters).1
    · cases read
  · cases read

theorem Lexeme.Visible.append (visible : lexeme.Visible) (nonempty : lexeme.chars ≠ [])
    (pos : Nat) (more : List Char) : Lexeme.Visible ⟨pos, lexeme.chars ++ more⟩ := by
  obtain ⟨c, rest, parts⟩ := List.exists_cons_of_ne_nil nonempty
  simpa [Lexeme.Visible, parts] using visible

theorem visible_attributeName? (read : cursor.attributeName? = some (lexeme, after)) :
    lexeme.Visible := by
  simp only [attributeName?, Option.bind_eq_bind, Option.bind_eq_some_iff] at read
  obtain ⟨⟨word, behind⟩, first, read⟩ := read
  have visible := visible_word? first
  split at read
  · cases read
    exact visible.append (takes_word? first).nonempty _ _
  · cases read
    exact visible

theorem visible_restLetter? (read : cursor.restLetter? = some (lexeme, after)) :
    lexeme.Visible := by
  simp only [restLetter?, Option.bind_eq_bind, Option.bind_eq_some_iff] at read
  obtain ⟨⟨mark, behind⟩, first, read⟩ := read
  split at read
  · cases read
  · cases read
    exact visible_next? (visible_sign (by decide)) first

theorem visible_tie? (read : cursor.tie? = some (lexeme, after)) : lexeme.Visible := by
  simp only [tie?, Option.bind_eq_bind, Option.bind_eq_some_iff] at read
  obtain ⟨⟨tilde, behind⟩, first, read⟩ := read
  split at read
  · cases read
    exact visible_next? (visible_sign (by decide)) first
  · cases read

theorem visible_quoted? {opening text closing : Lexeme}
    (read : cursor.quoted? = some ((opening, text, closing), after)) :
    opening.Visible ∧ closing.Visible := by
  simp only [quoted?, Option.bind_eq_bind, Option.bind_eq_some_iff] at read
  obtain ⟨⟨_, opened⟩, opens, ⟨_, closed⟩, closes, same⟩ := read
  cases same
  exact ⟨visible_next? (visible_sign (by decide)) opens,
    visible_next? (visible_sign (by decide)) closes⟩

theorem visible_wholeQuotation? (read : cursor.wholeQuotation? = some (lexeme, after)) :
    lexeme.Visible := by
  simp only [wholeQuotation?, Option.bind_eq_bind, Option.bind_eq_some_iff] at read
  obtain ⟨⟨⟨opening, text, closing⟩, behind⟩, quoted, read⟩ := read
  cases read
  obtain ⟨opened, closed, opens, -, -⟩ := cuts_quoted? quoted
  rw [List.append_assoc]
  exact (visible_quoted? quoted).1.append opens.nonempty _ _

def Rule.Visible (rule : Rule) : Prop :=
  ∀ cursor tokens after, rule.find cursor = some (tokens, after) →
    ∀ token ∈ tokens, token.1.Visible

namespace Rule

variable {read : Cursor → Option (Lexeme × Cursor)}

theorem visible_token (each : ∀ {cursor lexeme after}, read cursor = some (lexeme, after) →
    lexeme.Visible) (action : Action) : (Rule.token read action).Visible := by
  intro cursor tokens after found
  obtain ⟨⟨lexeme, behind⟩, taken, same⟩ := Option.map_eq_some_iff.mp found
  cases same
  exact List.forall_mem_singleton.mpr (each taken)

theorem visible_skip : (Rule.skip read).Visible := by
  intro cursor tokens after found
  obtain ⟨_, -, same⟩ := Option.map_eq_some_iff.mp found
  cases same
  simp

theorem visible_ahead (starts : List Char → Bool) : (Rule.ahead starts).Visible := by
  intro cursor tokens after found
  simp only [Rule.ahead] at found
  split at found
  · cases found
    simp
  · cases found

theorem visible_next {p : Char → Bool} (visible : ∀ c, p c → isBlank c = false)
    (action : Action) : (Rule.token (·.next? p) action).Visible :=
  visible_token (visible_next? visible) action

theorem visible_octave : Rule.Visible { find := (·.octaveTokens?) } := by
  intro cursor tokens after found
  simp only [octaveTokens?, Option.bind_eq_bind, Option.bind_eq_some_iff] at found
  obtain ⟨⟨mark, behind⟩, first, ⟨number, _⟩, digits, same⟩ := found
  cases same
  simpa using ⟨visible_next? (visible_sign (by decide)) first, visible_run? visible_decimal digits⟩

theorem visible_length : Rule.Visible { find := (·.lengthTokens?) } := by
  intro cursor tokens after found
  simp only [lengthTokens?, Option.bind_eq_bind, Option.bind_eq_some_iff] at found
  obtain ⟨⟨number, behind⟩, digits, found⟩ := found
  have first := visible_run? visible_decimal digits
  split at found
  · rename_i dots later run
    cases found
    simpa using ⟨first, visible_run? (visible_sign (by decide)) run⟩
  · cases found
    simpa using first

theorem visible_nickname : Rule.Visible { find := (·.nicknameTokens?) } := by
  intro cursor tokens after found
  simp only [nicknameTokens?, Option.bind_eq_bind, Option.bind_eq_some_iff] at found
  obtain ⟨⟨⟨opening, text, closing⟩, behind⟩, quoted, found⟩ := found
  obtain ⟨opens, closes⟩ := visible_quoted? quoted
  split at found
  · rename_i named
    cases found
    have name : text.Visible := by
      intro c first
      cases chars : text.chars with
      | nil => simp [chars] at first
      | cons a rest =>
        obtain rfl : a = c := by simpa [chars] using first
        rw [chars] at named
        cases rest with
        | nil => cases named
        | cons b rest =>
          simp only [isName, Bool.and_eq_true] at named
          exact isBlank_of_isLetter named.1.1
    simpa using ⟨opens, name, closes⟩
  · cases found

theorem visible_gaps : ∀ rule ∈ gapRules, rule.Visible := by
  simp only [gapRules, List.forall_mem_cons, List.not_mem_nil, false_implies, implies_true,
    and_true]
  exact ⟨visible_skip, visible_token visible_comment? _⟩

theorem visible_group : groupRule.Visible := visible_next (visible_sign (by decide)) .bracketStart

theorem visible_duration : durationRule.Visible :=
  visible_ahead fun text => text.head?.any fun c => isDecimal c || c == '~'

theorem visible_events : ∀ rule ∈ eventRules, rule.Visible := by
  refine List.forall_mem_append.mpr ⟨?_, visible_gaps⟩
  simp only [List.forall_mem_cons, List.not_mem_nil, false_implies, implies_true, and_true]
  exact ⟨visible_next visible_pitch _, visible_token visible_restLetter? _, visible_octave,
    visible_next (visible_sign (by decide)) _, visible_next (visible_sign (by decide)) _,
    visible_next (visible_sign (by decide)) _, visible_next (visible_sign (by decide)) _,
    visible_group⟩

end Rule

open Rule in
theorem Mode.visible_rules (mode : Mode) : ∀ rule ∈ mode.rules, rule.Visible := by
  cases mode with
  | root =>
    exact List.forall_mem_cons.mpr ⟨visible_ahead startsCall,
      List.forall_mem_cons.mpr ⟨visible_group, visible_gaps⟩⟩
  | part => exact List.forall_mem_cons.mpr ⟨visible_ahead startsCall, visible_gaps⟩
  | fragment => exact visible_events
  | instrument => simp [rules]
  | instrumentCall =>
    simp only [rules, List.forall_mem_cons, List.not_mem_nil, false_implies, implies_true,
      and_true]
    exact ⟨visible_token visible_name? _, visible_next (visible_sign (by decide)) _,
      visible_nickname, visible_token visible_wholeQuotation? _,
      visible_next (visible_sign (by decide)) _, visible_skip⟩
  | musicData => exact List.forall_mem_cons.mpr ⟨visible_ahead startsCall, visible_events⟩
  | note =>
    exact List.forall_mem_cons.mpr ⟨visible_next visible_accidental _,
      List.forall_mem_singleton.mpr visible_duration⟩
  | rest => exact List.forall_mem_singleton.mpr visible_duration
  | duration =>
    simp only [rules, List.forall_mem_cons, List.not_mem_nil, false_implies, implies_true,
      and_true]
    exact ⟨visible_length, visible_token visible_tie? _, visible_next (visible_sign (by decide)) _⟩
  | attributeChanges =>
    refine List.forall_mem_append.mpr ⟨?_, visible_gaps⟩
    simp only [List.forall_mem_cons, List.not_mem_nil, false_implies, implies_true, and_true]
    exact ⟨visible_next (visible_sign (by decide)) _, visible_next (visible_sign (by decide)) _,
      visible_token visible_attributeName? _⟩
  | attributeValue =>
    refine List.forall_mem_append.mpr ⟨?_, visible_gaps⟩
    simp only [List.forall_mem_cons, List.not_mem_nil, false_implies, implies_true, and_true]
    exact ⟨visible_ahead fun text => text.head?.any fun c => c == ',' || c == ')',
      visible_token (visible_run? visible_decimal) _, visible_token visible_word? _⟩

namespace Lexer

variable {lexer next : Lexer}

theorem visible_junk {mode : Mode} {starts : List Char → Bool} (stays : mode.leftBy? = none)
    (idle : firstRule? mode.rules cursor = none)
    (read : cursor.junk? starts = some (lexeme, after)) : lexeme.Visible := by
  intro c first
  have begins : c ∈ cursor.rest.head? := by
    have takes := takes_junk? read
    rw [takes.rest, List.head?_append_of_ne_nil _ takes.nonempty]
    exact first
  by_contra blank
  have found : (cursor.run? isBlank).isSome := by
    rw [isSome_run?, begins]
    simpa using blank
  obtain ⟨⟨blanks, behind⟩, skipped⟩ := Option.isSome_iff_exists.mp found
  have passed : step ⟨[mode], cursor⟩ = some ([], ⟨[mode], behind⟩) := step_blanks stays skipped
  simp [step, idle, stays, Option.map_eq_some_iff] at passed

theorem visible_step (stepped : lexer.step = some (tokens, next)) :
    ∀ token ∈ tokens, token.1.Visible := by
  unfold step at stepped
  split at stepped
  · cases stepped
  · rename_i mode outer modes
    split at stepped
    · rename_i rule found after first
      cases stepped
      obtain ⟨_, member, here⟩ := List.exists_of_findSome?_eq_some first
      obtain ⟨_, taken, same⟩ := Option.map_eq_some_iff.mp here
      cases same
      exact mode.visible_rules rule member _ _ _ taken
    · rename_i idle
      split at stepped
      · cases stepped
        simp
      · rename_i stays
        obtain ⟨⟨text, after⟩, junk, same⟩ := Option.map_eq_some_iff.mp stepped
        cases same
        exact List.forall_mem_singleton.mpr (visible_junk stays idle junk)

theorem Lexes.visible (lexes : Lexes lexer tokens) : ∀ token ∈ tokens, token.1.Visible := by
  induction lexes with
  | done ends whole => simp
  | step first more ih => exact List.forall_mem_append.mpr ⟨visible_step first, ih⟩

end Lexer

end Partbook.Source
