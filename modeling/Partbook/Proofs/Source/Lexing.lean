import Partbook.Proofs.Source.Calls
import Partbook.Proofs.Source.Places
import Partbook.Source.Lexicon
import Mathlib.Logic.Relation

/-!
What a round of the loop takes from the text: blanks, or tokens one behind the other, and nothing
between them is lost. So the tokens of a loop that comes to the end of a text are all that is in it
but for blanks, and a loop that ends is never twice in the same modes at one place.
-/
namespace Partbook.Source

open Text Cursor

variable {cursor middle after : Cursor} {lexeme : Lexeme} {tokens later : List (Lexeme × Action)}

/-! ## Pieces of a text -/

structure Cuts (cursor : Cursor) (lexeme : Lexeme) (after : Cursor) : Prop where
  pos : lexeme.pos = cursor.pos
  rest : cursor.rest = lexeme.chars ++ after.rest
  behind : after.pos = lexeme.span.stop

structure Takes (cursor : Cursor) (lexeme : Lexeme) (after : Cursor) : Prop
    extends Cuts cursor lexeme after where
  nonempty : lexeme.chars ≠ []

theorem cuts_cut {taken rest : List Char} (parts : cursor.rest = taken ++ rest) :
    Cuts cursor (cursor.cut taken rest).1 (cursor.cut taken rest).2 :=
  ⟨rfl, parts, rfl⟩

theorem takes_cut {taken rest : List Char} (parts : cursor.rest = taken ++ rest)
    (nonempty : taken ≠ []) : Takes cursor (cursor.cut taken rest).1 (cursor.cut taken rest).2 :=
  ⟨cuts_cut parts, nonempty⟩

theorem Cuts.passes (cuts : Cuts cursor lexeme after) : Passes False cursor after :=
  ⟨lexeme.chars, cuts.rest, by rw [cuts.behind, Lexeme.span, cuts.pos], False.elim⟩

theorem Cuts.join {other : Lexeme} (first : Cuts cursor lexeme middle)
    (second : Cuts middle other after) :
    Cuts cursor ⟨lexeme.pos, lexeme.chars ++ other.chars⟩ after := by
  refine ⟨first.pos, by rw [first.rest, second.rest, List.append_assoc], ?_⟩
  rw [second.behind, Lexeme.span, second.pos, first.behind, Lexeme.span, Lexeme.span,
    List.length_append, Nat.add_assoc]

theorem takes_next? {p : Char → Bool} (read : cursor.next? p = some (lexeme, after)) :
    Takes cursor lexeme after := by
  obtain ⟨c, rest, parts, -, same⟩ := next?_eq_some read
  cases same
  exact takes_cut parts (List.cons_ne_nil c [])

theorem cuts_run (p : Char → Bool) (cursor : Cursor) :
    Cuts cursor (cursor.run p).1 (cursor.run p).2 :=
  cuts_cut List.takeWhile_append_dropWhile.symm

theorem takes_run? {p : Char → Bool} (read : cursor.run? p = some (lexeme, after)) :
    Takes cursor lexeme after ∧ ∀ c ∈ lexeme.chars, p c := by
  unfold run? at read
  split at read
  · cases read
  · rename_i nonempty
    cases read
    exact ⟨⟨cuts_run p cursor, nonempty⟩, fun c member => List.mem_takeWhile_imp member⟩

theorem takes_comment? (read : cursor.comment? = some (lexeme, after)) :
    Takes cursor lexeme after := by
  unfold comment? at read
  split at read
  · rename_i rest parts
    cases read
    refine ⟨cuts_run _ cursor, ?_⟩
    simp [parts]
  · cases read

theorem takes_word? (read : cursor.word? = some (lexeme, after)) : Takes cursor lexeme after := by
  unfold word? at read
  split at read
  · rename_i c rest parts
    split at read
    · cases read
      exact takes_cut (by simp [parts]) (List.cons_ne_nil _ _)
    · cases read
  · cases read

theorem takes_name? (read : cursor.name? = some (lexeme, after)) : Takes cursor lexeme after := by
  unfold name? at read
  split at read
  · rename_i first second rest parts
    split at read
    · cases read
      exact takes_cut (by simp [parts]) (List.cons_ne_nil _ _)
    · cases read
  · cases read

theorem takes_attributeName? (read : cursor.attributeName? = some (lexeme, after)) :
    Takes cursor lexeme after := by
  simp only [attributeName?, Option.bind_eq_bind, Option.bind_eq_some_iff] at read
  obtain ⟨⟨word, behind⟩, first, read⟩ := read
  have takes := takes_word? first
  split at read
  · rename_i mark later marked
    cases read
    exact ⟨takes.toCuts.join (takes_next? marked).toCuts, by simp [takes.nonempty]⟩
  · cases read
    exact takes

theorem takes_restLetter? (read : cursor.restLetter? = some (lexeme, after)) :
    Takes cursor lexeme after := by
  simp only [restLetter?, Option.bind_eq_bind, Option.bind_eq_some_iff] at read
  obtain ⟨⟨mark, behind⟩, first, read⟩ := read
  split at read
  · cases read
  · cases read
    exact takes_next? first

theorem takes_tie? (read : cursor.tie? = some (lexeme, after)) : Takes cursor lexeme after := by
  simp only [tie?, Option.bind_eq_bind, Option.bind_eq_some_iff] at read
  obtain ⟨⟨tilde, behind⟩, first, read⟩ := read
  split at read
  · cases read
    exact takes_next? first
  · cases read

theorem cuts_quoted? {opening text closing : Lexeme}
    (read : cursor.quoted? = some ((opening, text, closing), after)) :
    ∃ opened closed, Takes cursor opening opened ∧ Cuts opened text closed ∧
      Takes closed closing after := by
  simp only [quoted?, Option.bind_eq_bind, Option.bind_eq_some_iff] at read
  obtain ⟨⟨_, opened⟩, opens, ⟨_, closed⟩, closes, same⟩ := read
  cases same
  exact ⟨opened, _, takes_next? opens, cuts_run _ opened, takes_next? closes⟩

theorem takes_wholeQuotation? (read : cursor.wholeQuotation? = some (lexeme, after)) :
    Takes cursor lexeme after := by
  simp only [wholeQuotation?, Option.bind_eq_bind, Option.bind_eq_some_iff] at read
  obtain ⟨⟨⟨opening, text, closing⟩, behind⟩, quoted, read⟩ := read
  cases read
  obtain ⟨opened, closed, opens, inside, closes⟩ := cuts_quoted? quoted
  exact ⟨(opens.toCuts.join inside).join closes.toCuts, by simp [opens.nonempty]⟩

theorem takes_junk? {starts : List Char → Bool}
    (read : cursor.junk? starts = some (lexeme, after)) : Takes cursor lexeme after := by
  simp only [junk?] at read
  split at read
  · cases read
  · rename_i nonempty
    cases read
    exact takes_cut (splitAt_append starts cursor.rest).symm nonempty

/-! ## Tokens one behind the other -/

/-- From one place to another stand these tokens, and nothing else but blanks. -/
inductive Covers : Cursor → List (Lexeme × Action) → Cursor → Prop
  | done (cursor : Cursor) : Covers cursor [] cursor
  | blanks {cursor middle after : Cursor} {text : Lexeme} {tokens : List (Lexeme × Action)}
      (cuts : Cuts cursor text middle) (blank : ∀ c ∈ text.chars, isBlank c)
      (later : Covers middle tokens after) : Covers cursor tokens after
  | token {cursor middle after : Cursor} {text : Lexeme} (action : Action)
      {tokens : List (Lexeme × Action)} (takes : Takes cursor text middle)
      (later : Covers middle tokens after) : Covers cursor ((text, action) :: tokens) after

namespace Covers

theorem trans (covers : Covers cursor tokens middle) (more : Covers middle later after) :
    Covers cursor (tokens ++ later) after := by
  induction covers with
  | done cursor => exact more
  | blanks cuts blank covers ih => exact .blanks cuts blank (ih more)
  | token action takes covers ih => exact .token action takes (ih more)

theorem passes (covers : Covers cursor tokens after) : Passes False cursor after := by
  induction covers with
  | done cursor => exact .refl cursor
  | blanks cuts blank covers ih => exact cuts.passes.trans ih
  | token action takes covers ih => exact takes.toCuts.passes.trans ih

variable {text : List Char}

theorem within (covers : Covers cursor tokens after) :
    ∀ token ∈ tokens, cursor.pos ≤ token.1.span.start ∧ token.1.span.stop ≤ after.pos := by
  induction covers with
  | done cursor => simp
  | blanks cuts blank covers ih =>
    intro token member
    have first := cuts.passes.pos_le
    have here := ih token member
    omega
  | token action takes covers ih =>
    have first := takes.toCuts.passes.pos_le
    have last := covers.passes.pos_le
    refine List.forall_mem_cons.mpr ⟨⟨takes.pos.ge, takes.behind ▸ last⟩, fun token member => ?_⟩
    have here := ih token member
    omega

theorem exact (covers : Covers cursor tokens after) (on : On text cursor) :
    ∀ token ∈ tokens, token.1.chars ≠ [] ∧ token.1.span.stop ≤ text.length ∧
      token.1.chars = between text token.1.span.start token.1.span.stop := by
  induction covers with
  | done cursor => simp
  | blanks cuts blank covers ih => exact ih (on.passes cuts.passes)
  | token action takes covers ih =>
    have behind := on.passes takes.toCuts.passes
    refine List.forall_mem_cons.mpr ⟨⟨takes.nonempty, takes.behind ▸ behind.within, ?_⟩, ih behind⟩
    have parts := takes.rest
    rw [on.rest, behind.rest, ← takes.pos, takes.behind] at parts
    exact eq_between (Nat.le_add_right _ _) (takes.behind ▸ behind.within) parts

theorem ordered (covers : Covers cursor tokens after) :
    tokens.Pairwise fun token next => token.1.span.stop ≤ next.1.span.start := by
  induction covers with
  | done cursor => exact .nil
  | blanks cuts blank covers ih => exact ih
  | token action takes covers ih =>
    refine List.pairwise_cons.mpr ⟨fun next member => ?_, ih⟩
    rw [← takes.behind]
    exact (covers.within next member).1

theorem blank (covers : Covers cursor tokens after) (on : On text cursor) (i : Nat)
    (from_start : cursor.pos ≤ i) (before : i < after.pos) :
    (∃ token ∈ tokens, token.1.span.start ≤ i ∧ i < token.1.span.stop) ∨
      ∃ c, text[i]? = some c ∧ isBlank c := by
  induction covers with
  | done cursor => omega
  | @blanks cursor middle after lexeme tokens cuts blank covers ih =>
    by_cases passed : middle.pos ≤ i
    · exact ih (on.passes cuts.passes) passed before
    · right
      have inside : i - cursor.pos < lexeme.chars.length := by
        have behind := cuts.behind
        simp only [Lexeme.span, cuts.pos] at behind
        omega
      have parts := cuts.rest
      rw [on.rest] at parts
      have found : text[i]? = lexeme.chars[i - cursor.pos]? := by
        rw [← List.getElem?_append_left inside, ← parts, List.getElem?_drop,
          Nat.add_sub_cancel' from_start]
      rw [List.getElem?_eq_getElem inside] at found
      exact ⟨_, found, blank _ (List.getElem_mem inside)⟩
  | @token cursor middle after lexeme action tokens takes covers ih =>
    by_cases passed : middle.pos ≤ i
    · rcases ih (on.passes takes.toCuts.passes) passed before with ⟨token, member, here⟩ | blank
      · exact .inl ⟨token, List.mem_cons_of_mem _ member, here⟩
      · exact .inr blank
    · have here : lexeme.span.start ≤ i := takes.pos.trans_le from_start
      exact .inl ⟨_, List.mem_cons_self, here, Nat.lt_of_not_le (takes.behind ▸ passed)⟩

end Covers

/-! ## Rules -/

def Rule.Sound (rule : Rule) : Prop :=
  ∀ cursor tokens after, rule.find cursor = some (tokens, after) → Covers cursor tokens after

namespace Rule

variable {read : Cursor → Option (Lexeme × Cursor)}

theorem sound_token (takes : ∀ {cursor lexeme after}, read cursor = some (lexeme, after) →
    Takes cursor lexeme after) (action : Action) : (Rule.token read action).Sound := by
  intro cursor tokens after found
  obtain ⟨⟨lexeme, behind⟩, taken, same⟩ := Option.map_eq_some_iff.mp found
  cases same
  exact .token action (takes taken) (.done after)

theorem sound_skip : (Rule.skip (·.run? isBlank)).Sound := by
  intro cursor tokens after found
  obtain ⟨⟨lexeme, behind⟩, taken, same⟩ := Option.map_eq_some_iff.mp found
  cases same
  obtain ⟨takes, blank⟩ := takes_run? taken
  exact .blanks takes.toCuts blank (.done after)

theorem sound_ahead (starts : List Char → Bool) : (Rule.ahead starts).Sound := by
  intro cursor tokens after found
  simp only [Rule.ahead] at found
  split at found
  · cases found
    exact .done cursor
  · cases found

theorem sound_octave : Rule.Sound { find := (·.octaveTokens?) } := by
  intro cursor tokens after found
  simp only [octaveTokens?, Option.bind_eq_bind, Option.bind_eq_some_iff] at found
  obtain ⟨⟨mark, behind⟩, first, ⟨number, _⟩, digits, same⟩ := found
  cases same
  exact .token _ (takes_next? first) (.token _ (takes_run? digits).1 (.done _))

theorem sound_length : Rule.Sound { find := (·.lengthTokens?) } := by
  intro cursor tokens after found
  simp only [lengthTokens?, Option.bind_eq_bind, Option.bind_eq_some_iff] at found
  obtain ⟨⟨number, behind⟩, digits, found⟩ := found
  split at found
  · rename_i dots later run
    cases found
    exact .token _ (takes_run? digits).1 (.token _ (takes_run? run).1 (.done _))
  · cases found
    exact .token _ (takes_run? digits).1 (.done _)

theorem sound_nickname : Rule.Sound { find := (·.nicknameTokens?) } := by
  intro cursor tokens after found
  simp only [nicknameTokens?, Option.bind_eq_bind, Option.bind_eq_some_iff] at found
  obtain ⟨⟨⟨opening, text, closing⟩, behind⟩, quoted, found⟩ := found
  obtain ⟨opened, closed, opens, inside, closes⟩ := cuts_quoted? quoted
  split at found
  · rename_i named
    cases found
    have nonempty : text.chars ≠ [] := fun none => by simp [none, isName] at named
    exact .token _ opens (.token _ ⟨inside, nonempty⟩ (.token _ closes (.done _)))
  · cases found

theorem sound_gaps : ∀ rule ∈ gapRules, rule.Sound := by
  simp only [gapRules, List.forall_mem_cons, List.not_mem_nil, false_implies, implies_true,
    and_true]
  exact ⟨sound_skip, sound_token takes_comment? _⟩

theorem sound_group : groupRule.Sound := sound_token takes_next? .bracketStart

theorem sound_duration : durationRule.Sound :=
  sound_ahead fun text => text.head?.any fun c => isDecimal c || c == '~'

theorem sound_events : ∀ rule ∈ eventRules, rule.Sound := by
  refine List.forall_mem_append.mpr ⟨?_, sound_gaps⟩
  simp only [List.forall_mem_cons, List.not_mem_nil, false_implies, implies_true, and_true]
  exact ⟨sound_token takes_next? _, sound_token takes_restLetter? _, sound_octave,
    sound_token takes_next? _, sound_token takes_next? _, sound_token takes_next? _,
    sound_token takes_next? _, sound_group⟩

end Rule

open Rule in
theorem Mode.sound_rules (mode : Mode) : ∀ rule ∈ mode.rules, rule.Sound := by
  cases mode with
  | root =>
    exact List.forall_mem_cons.mpr ⟨sound_ahead startsCall,
      List.forall_mem_cons.mpr ⟨sound_group, sound_gaps⟩⟩
  | part => exact List.forall_mem_cons.mpr ⟨sound_ahead startsCall, sound_gaps⟩
  | fragment => exact sound_events
  | instrument => simp [rules]
  | instrumentCall =>
    simp only [rules, List.forall_mem_cons, List.not_mem_nil, false_implies, implies_true,
      and_true]
    exact ⟨sound_token takes_name? _, sound_token takes_next? _, sound_nickname,
      sound_token takes_wholeQuotation? _, sound_token takes_next? _, sound_skip⟩
  | musicData => exact List.forall_mem_cons.mpr ⟨sound_ahead startsCall, sound_events⟩
  | note =>
    exact List.forall_mem_cons.mpr ⟨sound_token takes_next? _,
      List.forall_mem_singleton.mpr sound_duration⟩
  | rest => exact List.forall_mem_singleton.mpr sound_duration
  | duration =>
    simp only [rules, List.forall_mem_cons, List.not_mem_nil, false_implies, implies_true,
      and_true]
    exact ⟨sound_length, sound_token takes_tie? _, sound_token takes_next? _⟩
  | attributeChanges =>
    refine List.forall_mem_append.mpr ⟨?_, sound_gaps⟩
    simp only [List.forall_mem_cons, List.not_mem_nil, false_implies, implies_true, and_true]
    exact ⟨sound_token takes_next? _, sound_token takes_next? _,
      sound_token takes_attributeName? _⟩
  | attributeValue =>
    refine List.forall_mem_append.mpr ⟨?_, sound_gaps⟩
    simp only [List.forall_mem_cons, List.not_mem_nil, false_implies, implies_true, and_true]
    exact ⟨sound_ahead fun text => text.head?.any fun c => c == ',' || c == ')',
      sound_token (fun read => (takes_run? read).1) _,
      sound_token takes_word? _⟩

namespace Lexer

variable {lexer next : Lexer}

theorem covers_step (stepped : lexer.step = some (tokens, next)) :
    Covers lexer.cursor tokens next.cursor := by
  unfold step at stepped
  split at stepped
  · cases stepped
  · rename_i mode outer modes
    split at stepped
    · rename_i rule found after first
      cases stepped
      obtain ⟨_, member, here⟩ := List.exists_of_findSome?_eq_some first
      obtain ⟨_, taken, same⟩ := Option.map_eq_some_iff.mp here
      cases same
      exact mode.sound_rules rule member _ _ _ taken
    · split at stepped
      · cases stepped
        exact .done _
      · obtain ⟨⟨text, after⟩, junk, same⟩ := Option.map_eq_some_iff.mp stepped
        cases same
        exact .token _ (takes_junk? junk) (.done _)

def Next (lexer next : Lexer) : Prop := ∃ tokens, lexer.step = some (tokens, next)

/-- The loop ends, at the end of the text, and these are its tokens. -/
inductive Lexes : Lexer → List (Lexeme × Action) → Prop
  | done {lexer : Lexer} (ends : lexer.step = none) (whole : lexer.cursor.rest = []) :
      Lexes lexer []
  | step {lexer next : Lexer} {tokens later : List (Lexeme × Action)}
      (first : lexer.step = some (tokens, next)) (more : Lexes next later) :
      Lexes lexer (tokens ++ later)

namespace Lexes

theorem covers (lexes : Lexes lexer tokens) :
    ∃ after, Covers lexer.cursor tokens after ∧ after.rest = [] := by
  induction lexes with
  | done ends whole => exact ⟨_, .done _, whole⟩
  | step first more ih =>
    obtain ⟨after, covers, whole⟩ := ih
    exact ⟨after, (covers_step first).trans covers, whole⟩

theorem goesOn (lexes : Lexes lexer tokens) (goes : Next lexer next) :
    ∃ later, Lexes next later := by
  obtain ⟨found, stepped⟩ := goes
  cases lexes with
  | done ends whole => cases ends.symm.trans stepped
  | step first more =>
    cases first.symm.trans stepped
    exact ⟨_, more⟩

theorem reached (lexes : Lexes lexer tokens) (reaches : Relation.ReflTransGen Next lexer next) :
    ∃ later, Lexes next later := by
  induction reaches with
  | refl => exact ⟨tokens, lexes⟩
  | tail reaches goesOn ih =>
    obtain ⟨later, lexes⟩ := ih
    exact lexes.goesOn goesOn

theorem not_again (lexes : Lexes lexer tokens) : ¬ Relation.TransGen Next lexer lexer := by
  induction lexes with
  | done ends whole =>
    intro again
    obtain ⟨next, ⟨found, stepped⟩, -⟩ := Relation.TransGen.head'_iff.mp again
    cases ends.symm.trans stepped
  | step first more ih =>
    -- a way back to the first state goes through the second, and so leads back to this one too
    intro again
    obtain ⟨next, ⟨found, stepped⟩, back⟩ := Relation.TransGen.head'_iff.mp again
    cases first.symm.trans stepped
    exact ih (Relation.TransGen.tail' back ⟨_, first⟩)

end Lexes

variable {text : List Char}

theorem on_reached (on : On text lexer.cursor) (reaches : Relation.ReflTransGen Next lexer next) :
    On text next.cursor := by
  induction reaches with
  | refl => exact on
  | tail reaches goesOn ih =>
    obtain ⟨tokens, stepped⟩ := goesOn
    exact ih.passes (covers_step stepped).passes

theorem Lexes.not_twice {first second : Lexer} (lexes : Lexes lexer tokens)
    (on : On text lexer.cursor) (reaches : Relation.ReflTransGen Next lexer first)
    (later : Relation.TransGen Next first second) :
    ¬ (first.modes = second.modes ∧ first.cursor.pos = second.cursor.pos) := by
  rintro ⟨modes, pos⟩
  obtain ⟨more, here⟩ := lexes.reached reaches
  have onFirst := on_reached on reaches
  have onSecond := on_reached onFirst later.to_reflTransGen
  have same : first = second := by
    obtain ⟨modes', ⟨pos', rest'⟩⟩ := first
    obtain ⟨modes'', ⟨pos'', rest''⟩⟩ := second
    have rest := onFirst.rest.trans ((congrArg text.drop pos).trans onSecond.rest.symm)
    simp only at modes pos rest
    subst modes pos rest
    rfl
  exact here.not_again (same ▸ later)

/-- The tokens are pieces of the text, one behind the other, and what they leave out is blank. -/
structure Lossless (text : List Char) (tokens : List (Lexeme × Action)) : Prop where
  nonempty : ∀ token ∈ tokens, token.1.chars ≠ []
  within : ∀ token ∈ tokens, token.1.span.stop ≤ text.length
  exact : ∀ token ∈ tokens, token.1.chars = between text token.1.span.start token.1.span.stop
  ordered : tokens.Pairwise fun token next => token.1.span.stop ≤ next.1.span.start
  blank : ∀ i c, text[i]? = some c →
    (∃ token ∈ tokens, token.1.span.start ≤ i ∧ i < token.1.span.stop) ∨ isBlank c

theorem Lexes.lossless (lexes : Lexes lexer tokens) (begins : lexer.cursor = ⟨0, text⟩) :
    Lossless text tokens := by
  obtain ⟨after, covers, whole⟩ := lexes.covers
  rw [begins] at covers
  have on : On text ⟨0, text⟩ := ⟨rfl, Nat.zero_le _⟩
  have all : text.length ≤ after.pos := by
    have behind := (on.passes covers.passes).rest
    rw [whole, eq_comm, List.drop_eq_nil_iff] at behind
    exact behind
  exact
    { nonempty := fun token member => (covers.exact on token member).1
      within := fun token member => (covers.exact on token member).2.1
      exact := fun token member => (covers.exact on token member).2.2
      ordered := covers.ordered
      blank := by
        intro i c here
        have inside := (List.getElem?_eq_some_iff.mp here).1
        rcases covers.blank on i (Nat.zero_le i) (by omega) with found | ⟨c', here', blank⟩
        · exact .inl found
        · cases here.symm.trans here'
          exact .inr blank }

end Lexer

end Partbook.Source
