import Partbook.Proofs.Entering
import Partbook.Proofs.Text.Initials
import Partbook.Proofs.Writing.Globals

/-!
What the prompt shows. Whoever is called in a session has a proper name, and so has every nickname.
A nickname of one's own is shown by all of its initials. Otherwise, the initials that are shown are
those of the name without the words directly before a plus.
-/
namespace Partbook

open Text Source Element Grammar

def Datum.IsName (datum : Datum) : Prop := ∃ text, datum = .text text ∧ isName text.toList

/-! ## Names in calls -/

namespace Element

def Titled (instrument : Element) : Prop := ∀ name, instrument.Mentions name → name.IsName

variable {instrument : Element}

theorem titled_of_part {part : Part}
    (read : ∃ cursor after, Cursor.part? cursor = some (part, after))
    (built : part.element = .ok instrument) : instrument.Titled := by
  obtain ⟨cursor, after, read⟩ := read
  obtain ⟨behind, called, -, -⟩ := Cursor.part?_eq_some read
  obtain ⟨line, -, names, nickname⟩ := Cursor.call?_exact called (Part.valid_of_element built)
  obtain ⟨origin, music, -, rfl⟩ := Part.element_ok built
  rintro name (given | nicknamed)
  · rw [calledNames_spelledOut] at given
    obtain ⟨lexeme, member, rfl⟩ := List.mem_map.mp given
    exact ⟨_, rfl, line.named _ (names ▸ List.mem_map_of_mem member)⟩
  · rw [calledNickname, calledNicknames_spelledOut] at nicknamed
    cases found : part.call.nickname? with
    | none => simp [found] at nicknamed
    | some lexeme =>
      obtain rfl : .text lexeme.text = name := by simpa [found] using nicknamed
      rw [found] at nickname
      obtain ⟨⟨gap, given⟩, quoted, same⟩ := Option.map_eq_some_iff.mp nickname.symm
      exact ⟨_, rfl, same ▸ (line.quoted gap given quoted).2.2⟩

theorem titled_of_partElements {parts : List Part} {instruments : List Element}
    (read : ∀ part ∈ parts, ∃ cursor after, Cursor.part? cursor = some (part, after))
    (built : partElements parts = .ok instruments) :
    ∀ instrument ∈ instruments, instrument.Titled := by
  intro instrument member
  obtain ⟨part, within, here⟩ := exists_part_of_mem built instrument member
  exact titled_of_part (read part within) here

theorem Titled.led (titled : instrument.Titled) (called : instrument.WellCalled) (event : Element) :
    (instrument.led event).Titled := by
  obtain ⟨call, music, begins, led⟩ := called.children_led event
  have names : (instrument.led event).calledNames = instrument.calledNames := by
    simp only [calledNames, begins, led, List.head?_cons]
  have nicknames : (instrument.led event).calledNicknames = instrument.calledNicknames := by
    simp only [calledNicknames, begins, led, List.head?_cons]
  intro name mentions
  rw [Mentions, names, calledNickname, nicknames] at mentions
  exact titled name mentions

theorem titled_of_read {rule : StartRule} (other : rule ≠ .musicData) {text : String}
    {score : Element} (read : Element.read rule text = .ok score) :
    ∀ instrument ∈ score.hoistGlobals.childrenOf (.plain .instrument), instrument.Titled := by
  have called := (wellCalledScore_of_read read (kind_of_read other read)).called
  have built := read_ok_iff.mp read
  cases rule with
  | musicData => exact absurd rfl other
  | part =>
    obtain ⟨instrument, parts, -, rfl⟩ := Document.partElement_ok_iff.mp built
    rw [hoistGlobals_of_instruments (kind_of_partElements parts)]
    exact fun found member => titled_of_partElements (read_parts false text) parts found
      (List.mem_filter.mp member).1
  | score =>
    simp only [build, Document.scoreElement, bind_eq_ok, pure_eq_ok] at built
    obtain ⟨changes, -, instruments, parts, _, -, rfl⟩ := built
    have titled := titled_of_partElements (read_parts true text) parts
    have kind := kind_of_partElements parts
    change ∀ instrument ∈ (opened changes instruments).hoistGlobals.childrenOf _, _
    change ∀ instrument ∈ (opened changes instruments).childrenOf _, _ at called
    rw [instruments_opened kind] at called
    by_cases still : changes = [] ∨ instruments = []
    · rw [hoistGlobals_of_still kind still, instruments_opened kind]
      exact titled
    · rw [not_or] at still
      obtain ⟨first, others, rfl⟩ := List.exists_cons_of_ne_nil still.2
      rw [List.forall_mem_cons] at kind titled called
      rw [hoistGlobals_opened kind.1 still.1]
      intro instrument member
      rcases List.mem_cons.mp (List.mem_filter.mp member).1 with rfl | later
      · exact titled.1.led called.1 _
      · exact titled.2 instrument later

end Element

namespace Roster

variable {roster : Roster}

theorem mem_nicknames_callFor {instrument : Element} {name : Datum}
    (member : name ∈ (roster.callFor instrument).1.nicknames.names) :
    name ∈ roster.nicknames.names ∨ instrument.calledNickname = some name := by
  rw [callFor] at member
  cases given : instrument.calledNickname with
  | none =>
    rw [given] at member
    exact .inl member
  | some nickname =>
    simp only [given, call, Bindings.names_bind] at member
    split at member
    · exact .inl member
    · rcases List.mem_append.mp member with old | new
      · exact .inl old
      · exact .inr (congrArg some (List.mem_singleton.mp new).symm)

theorem nicknames_afterCalls {sort : Datum → Prop} {instruments : List Element}
    (old : ∀ name ∈ roster.nicknames.names, sort name)
    (new : ∀ instrument ∈ instruments, ∀ name, instrument.calledNickname = some name → sort name) :
    ∀ name ∈ (roster.afterCalls instruments).nicknames.names, sort name := by
  induction instruments generalizing roster with
  | nil => exact old
  | cons instrument instruments ih =>
    rw [List.forall_mem_cons] at new
    exact ih (fun name member => (mem_nicknames_callFor member).elim (old name) (new.1 name)) new.2

end Roster

namespace Session

variable {session : Session}

/-! ## Names in sessions -/

/-- The sessions that texts lead to, whatever rules are tried. A text that fails changes nothing. -/
inductive Reached : Session → Prop
  | start (contexts : List String) : Reached { contexts }
  | after {session after : Session} {text : String} {answer : List (Datum × Form)}
    (reached : Reached session) (interpreted : session.interpret text = .ok (after, answer)) :
    Reached after

structure Titled (session : Session) : Prop where
  known : session.roster.Within Datum.IsName
  nicknames : ∀ nickname ∈ session.roster.nicknames.names, nickname.IsName
  current : ∀ inst ∈ session.current, inst.name.IsName

theorem titled_instrumentsOf (session : Session) (text : String) :
    ∀ instrument ∈ session.instrumentsOf text, instrument.Titled := by
  rw [instrumentsOf]
  cases found : session.read text with
  | error cause => simp
  | ok answer =>
    obtain ⟨context, element⟩ := answer
    obtain ⟨rule, read⟩ := exists_rule_of_read found
    by_cases music : rule = .musicData
    · subst music
      obtain ⟨events, heard⟩ := heard_of_accepted ⟨_, read⟩
      cases heard.read.symm.trans read
      by_cases nobody : session.current = []
      · simp [scoreOf_nobody nobody events]
      · have only : (plain .score [lineScore session.current events]).hoistGlobals.childrenOf
            (.plain .instrument) = [lineScore session.current events] := rfl
        simp only [scoreOf_music nobody events, only, List.forall_mem_singleton]
        rintro name (given | nicknamed)
        · simp [calledNames_lineScore] at given
        · simp [calledNickname_lineScore] at nicknamed
    · have scored : session.scoreOf element = .ok element := by
        rw [scoreOf, kind_of_read music read]
        rfl
      simpa only [scored] using titled_of_read music read

theorem Titled.after (titled : session.Titled) {after : Session} {text : String}
    {answer : List (Datum × Form)} (interpreted : session.interpret text = .ok (after, answer)) :
    after.Titled := by
  rw [interpret_eq, map_eq_ok] at interpreted
  obtain ⟨⟨context, result⟩, taken, same⟩ := interpreted
  cases same
  have carried (players : ∀ inst ∈ Roster.playersOf result.score.children, inst.name.IsName) :
      ∀ inst ∈ (lastCalled result.score).getD session.current, inst.name.IsName :=
    fun inst member => (mem_current_after member).elim (players inst) (titled.current inst)
  rcases taken_of_outcome taken with ⟨-, -, admitted, players⟩ | ⟨called, resolved⟩
  · have fixed : ∀ inst ∈ session.current, inst.name.isFixed := by
      intro inst member
      obtain ⟨text, named, -⟩ := titled.current inst member
      rw [named]
      rfl
    obtain ⟨-, readmitted⟩ := (Roster.readmitAll_ok_iff fixed).mp admitted
    exact ⟨readmitted ▸ titled.known.readmitted titled.current, readmitted ▸ titled.nicknames,
      carried (players ▸ titled.current)⟩
  · have titles := titled_instrumentsOf session text
    rw [Roster.resolveAll_called called, Except.ok.injEq, Prod.mk.injEq] at resolved
    obtain ⟨known, named⟩ := titled.known.calls fun instrument member name given =>
      titles instrument member name (.inl given)
    refine ⟨resolved.1 ▸ known, resolved.1 ▸ ?_, carried (resolved.2 ▸ named)⟩
    exact Roster.nicknames_afterCalls titled.nicknames fun instrument member name given =>
      titles instrument member name (.inr given)

theorem Reached.titled (reached : Reached session) : session.Titled := by
  induction reached with
  | start contexts =>
    exact ⟨.start _, by simp [Bindings.names], by simp⟩
  | after reached interpreted ih => exact ih.after interpreted

/-! ## Short names -/

/-- The nickname stands for the instance alone, and no nickname before it does. -/
def FirstOwn (session : Session) (inst : Instance) (nickname : Datum) : Prop :=
  ∃ before after, session.roster.nicknames = before ++ (nickname, [inst]) :: after ∧
    ∀ entry ∈ before, entry.2 ≠ [inst]

variable {inst : Instance} {nickname : Datum} {name : String}

theorem firstOwn_iff : session.FirstOwn inst nickname ↔
    session.roster.nicknames.find? (·.2 = [inst]) = some (nickname, [inst]) := by
  simp [FirstOwn, List.find?_eq_some_iff_append]

theorem abbreviation_own (own : session.FirstOwn inst nickname) :
    session.abbreviation inst = initials nickname.bare := by
  rw [abbreviation, firstOwn_iff.mp own]

theorem abbreviation_bare (bare : ∀ nickname, ¬ session.FirstOwn inst nickname) :
    session.abbreviation inst = hyphenInitials inst.shown := by
  cases found : session.roster.nicknames.find? (·.2 = [inst]) with
  | none => rw [abbreviation, found]
  | some entry =>
    obtain ⟨nickname, group⟩ := entry
    obtain rfl : group = [inst] := by simpa using List.find?_some found
    exact absurd (firstOwn_iff.mpr found) (bare nickname)

/-- A short name is what the patterns find in the nickname, or in the name with the number. -/
theorem abbreviation_eq_findAll (session : Session) (inst : Instance) :
    session.abbreviation inst = String.ofList
      (match session.roster.nicknames.find? (·.2 = [inst]) with
      | some (nickname, _) => findAll anything 0 nickname.bare.toList
      | none => findAll hyphen 0 inst.shown.toList) := by
  rw [abbreviation]
  cases session.roster.nicknames.find? (·.2 = [inst]) with
  | none => exact hyphenInitials_eq_findAll _
  | some entry => exact initials_eq_findAll _

theorem toList_shown (named : inst.name = .text name) :
    inst.shown.toList = name.toList ++ '-' :: (toString inst.number).toList := by
  rw [Instance.shown, Instance.datum, named, Datum.bare, String.toList_append, String.toList_append,
    List.append_assoc]
  rfl

theorem isWord_of_mem_abbreviation (session : Session) (inst : Instance) :
    ∀ c ∈ (session.abbreviation inst).toList, isWord c := by
  intro c member
  rw [abbreviation] at member
  split at member
  · exact isWord_of_mem_initialsFrom c (by simpa [initials] using member)
  · exact isWord_of_mem_initialsFrom c (by simpa [hyphenInitials] using member)

theorem prompt_names (called : session.current ≠ []) : ∃ names : List Char,
    session.prompt.toList = names ++ ['>', ' '] ∧
      names.splitOn '/' = session.current.map fun inst => (session.abbreviation inst).toList := by
  refine ⟨_, by rw [prompt, String.toList_append, String.toList_intercalate]; rfl, ?_⟩
  rw [List.map_map]
  refine List.splitOn_intercalate '/' ?_ (by simpa using called)
  intro shown member slash
  obtain ⟨inst, -, rfl⟩ := List.mem_map.mp member
  have word := isWord_of_mem_abbreviation session inst '/' slash
  rw [isWord_signs '/' (by simp)] at word
  cases word

theorem Titled.abbreviation_own (titled : session.Titled)
    (own : session.FirstOwn inst nickname) : ∃ given, nickname = .text given ∧
      (session.abbreviation inst).toList = firstChars (words given.toList) ∧
      session.abbreviation inst ≠ "" := by
  obtain ⟨before, after, nicknames, -⟩ := id own
  have known : nickname ∈ session.roster.nicknames.names :=
    List.mem_map_of_mem (f := Prod.fst) (nicknames ▸ List.mem_append_right _ List.mem_cons_self)
  obtain ⟨given, rfl, named⟩ := titled.nicknames nickname known
  have shown : (session.abbreviation inst).toList = firstChars (words given.toList) := by
    rw [Session.abbreviation_own own, toList_initials]
    rfl
  refine ⟨given, rfl, shown, ?_⟩
  have nonempty := firstChars_ne_nil named
  rw [← shown] at nonempty
  simpa using nonempty

theorem abbreviation_bare_iff (named : inst.name = .text name) (proper : isName name.toList)
    (bare : ∀ nickname, ¬ session.FirstOwn inst nickname) :
    ((session.abbreviation inst).toList = firstChars (words name.toList) ↔
      ¬ WordBefore '+' name.toList) ∧
    (session.abbreviation inst ≠ "" ↔ WordLast name.toList ∨ WordBefore '-' name.toList) := by
  have chars := isNameChar_of_isName proper
  have number := isNumber_toString inst.number
  have shown : (session.abbreviation inst).toList =
      initialsFrom (fun rest => rest.head? == some '-') false
        (name.toList ++ '-' :: (toString inst.number).toList) := by
    rw [abbreviation_bare bare, hyphenInitials, String.toList_ofList, toList_shown named]
  refine ⟨by rw [shown, initialsFrom_eq_firstChars_iff chars number], ?_⟩
  rw [← initialsFrom_ne_nil_iff chars number, ← shown]
  simp

/-- In a session, whoever has a nickname of their own is shown by all initials of the first such
nickname. Any other instance with a proper name is shown by all initials of the name exactly if no
word in it stands directly before a plus, and by any at all exactly if some word in it stands at its
end or directly before a hyphen. The prompt shows all of those who were called last, and all of them
have proper names. -/
theorem abbreviation_initials_iff (reached : Reached session) :
    (∀ inst name, inst.name = .text name → isName name.toList →
      (∀ nickname, session.FirstOwn inst nickname → ∃ given, nickname = .text given ∧
        (session.abbreviation inst).toList = firstChars (words given.toList) ∧
        session.abbreviation inst ≠ "") ∧
      ((∀ nickname, ¬ session.FirstOwn inst nickname) →
        ((session.abbreviation inst).toList = firstChars (words name.toList) ↔
          ¬ WordBefore '+' name.toList) ∧
        (session.abbreviation inst ≠ "" ↔
          WordLast name.toList ∨ WordBefore '-' name.toList))) ∧
    (∀ inst ∈ session.current, inst.name.IsName) ∧
    (session.current ≠ [] → ∃ names : List Char, session.prompt.toList = names ++ ['>', ' '] ∧
      names.splitOn '/' = session.current.map fun inst => (session.abbreviation inst).toList) :=
  ⟨fun _ _ named proper => ⟨fun _ => reached.titled.abbreviation_own,
    abbreviation_bare_iff named proper⟩, reached.titled.current, prompt_names⟩

theorem abbreviation_lead_horn : ∃ session, Reached session ∧
    session.current = [⟨.text "tuba-bass", 1⟩, ⟨.text "piano", 1⟩] ∧ session.prompt = "lh/p> " ∧
    (session.abbreviation ⟨.text "tuba-bass", 1⟩).toList = firstChars (words "lead-horn".toList) ∧
    (session.abbreviation ⟨.text "piano", 1⟩).toList = firstChars (words "piano".toList) := by
  have shown : ((({} : Session).interpret "tuba-bass \"lead-horn\": c").toOption.bind
      fun middle => (middle.1.interpret "lead-horn/piano: d").toOption.map fun last =>
        (last.1.roster.nicknames, last.1.current, last.1.prompt)) =
      some ([(.text "lead-horn", [⟨.text "tuba-bass", 1⟩])],
        [⟨.text "tuba-bass", 1⟩, ⟨.text "piano", 1⟩], "lh/p> ") := by
    decide +kernel
  obtain ⟨⟨middle, _⟩, first, shown⟩ := Option.bind_eq_some_iff.mp shown
  obtain ⟨⟨last, _⟩, second, same⟩ := Option.map_eq_some_iff.mp shown
  obtain ⟨nicknames, current, prompt⟩ := Prod.mk.inj same |>.imp_right Prod.mk.inj
  rw [toOption_eq_some] at first second
  have reached : Reached last := .after (.after (.start _) first) second
  have initials := (abbreviation_initials_iff reached).1
  obtain ⟨given, same, horn, -⟩ := (initials ⟨.text "tuba-bass", 1⟩ _ rfl
    (by decide +kernel)).1 (.text "lead-horn") ⟨[], [], nicknames, by simp⟩
  cases same
  have bare : ∀ nickname, ¬ last.FirstOwn ⟨.text "piano", 1⟩ nickname := by
    intro nickname own
    rw [firstOwn_iff, nicknames] at own
    simp at own
  obtain ⟨whole, -⟩ := (initials ⟨.text "piano", 1⟩ _ rfl (by decide +kernel)).2 bare
  exact ⟨last, reached, current, prompt, horn, whole.mpr (by decide +kernel)⟩

/-- The only word of the name stands before a plus. -/
theorem abbreviation_sax : ∃ session, Reached session ∧
    session.current = [⟨.text "sax+", 1⟩] ∧ isName "sax+".toList ∧
    (∀ nickname, ¬ session.FirstOwn ⟨.text "sax+", 1⟩ nickname) ∧
    firstChars (words "sax+".toList) = ['s'] ∧
    session.abbreviation ⟨.text "sax+", 1⟩ = "" ∧ session.prompt = "> " := by
  have shown : ((({} : Session).interpret "sax+: c").toOption.map fun after =>
      (after.1.roster.nicknames, after.1.current, after.1.abbreviation ⟨.text "sax+", 1⟩,
        after.1.prompt)) = some ([], [⟨.text "sax+", 1⟩], "", "> ") := by
    decide +kernel
  obtain ⟨⟨after, _⟩, interpreted, same⟩ := Option.map_eq_some_iff.mp shown
  simp only [Prod.mk.injEq] at same
  obtain ⟨nicknames, current, short, prompt⟩ := same
  rw [toOption_eq_some] at interpreted
  refine ⟨after, .after (.start _) interpreted, current, by decide +kernel,
    fun nickname own => ?_, by decide +kernel, short, prompt⟩
  rw [firstOwn_iff, nicknames] at own
  cases own

end Session

end Partbook
