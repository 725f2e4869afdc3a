import Partbook.Proofs.Grammar.Parts
import Partbook.Proofs.Scripted
import Partbook.Proofs.Session

/-!
The start rules beside each other. A text that is one part is the same score, and no text with a
call is music: music is tame from any place on at which it is read, and a call is not. So only one
kind of reading can succeed on a text with a call, in whatever order the rules are tried.
-/
namespace Partbook

open Text Source Element Grammar

/-! ## A part is a score -/

namespace Source.Cursor

variable {cursor after : Cursor}

theorem comment_of_preludeItem? {item : PreludeItem}
    (read : cursor.preludeItem? false = some (item, after))
    (valid : ∀ text, item ≠ .invalid text) :
    ∃ lexeme, item = .comment lexeme ∧ cursor.skipBlanks.comment? = some (lexeme, after) := by
  rcases preludeItem?_cases read with ⟨group, -, allowed, -⟩ | comment | ⟨lexeme, starts, rfl, -⟩
  · cases allowed
  · exact comment
  · exact absurd rfl (valid lexeme)

theorem preludeItem?_true {item : PreludeItem}
    (read : cursor.preludeItem? false = some (item, after))
    (valid : ∀ text, item ≠ .invalid text) :
    cursor.preludeItem? true = some (item, after) := by
  obtain ⟨lexeme, rfl, comment⟩ := comment_of_preludeItem? read valid
  rw [← preludeItem?_of_comment? true comment]
  simp only [preludeItem?, skipBlanks_skipBlanks]

theorem starts_of_preludeItem? (ends : cursor.preludeItem? false = none) :
    startsCall cursor.skipBlanks.rest ∨ cursor.skipBlanks.rest = [] := by
  by_contra goesOn
  rw [not_or, Bool.not_eq_true] at goesOn
  obtain ⟨noCall, within⟩ := goesOn
  simp only [preludeItem?, noCall, Bool.false_eq_true, if_false, Option.orElse_eq_orElse,
    Option.orElse_eq_or, Option.or_eq_none_iff, Option.map_eq_none_iff] at ends
  obtain ⟨-, noComment, noJunk⟩ := ends
  have visible := cursor.visible_skipBlanks
  refine junk?_ne_none within ?_ noJunk
  generalize cursor.skipBlanks = start at noCall within noComment visible
  obtain ⟨pos, rest⟩ := start
  obtain ⟨c, rest, rfl⟩ := List.exists_cons_of_ne_nil within
  have plain : c ≠ '#' := by
    rintro rfl
    cases noComment
  simpa [noCall, visible c rfl] using plain

theorem preludeItem?_true_end (ends : cursor.preludeItem? false = none) :
    cursor.preludeItem? true = none := by
  rcases starts_of_preludeItem? ends with call | nothing
  · simp only [preludeItem?, call, if_true]
  · generalize skipped : cursor.skipBlanks = start at nothing
    obtain ⟨pos, rest⟩ := start
    subst nothing
    simp only [preludeItem?, skipped]
    rfl

theorem prelude_true (valid : ∀ item ∈ (cursor.many (preludeItem? false)).1,
    ∀ text, item ≠ .invalid text) :
    cursor.many (preludeItem? true) = cursor.many (preludeItem? false) := by
  induction cursor using many.induct (preludeItem? false) with
  | case1 cursor none => rw [many_of_none none, many_of_none (preludeItem?_true_end none)]
  | case2 cursor item after read shorter ih =>
    rw [many_of_some (consuming_preludeItem? false) read] at valid ⊢
    rw [List.forall_mem_cons] at valid
    rw [many_of_some (consuming_preludeItem? true) (preludeItem?_true read valid.1), ih valid.2]
  | case3 cursor item after read longer => exact absurd (consuming_preludeItem? _ _ _ _ read) longer

theorem comments_of_prelude (valid : ∀ item ∈ (cursor.many (preludeItem? false)).1,
    ∀ text, item ≠ .invalid text) :
    ∀ item ∈ (cursor.many (preludeItem? false)).1, ∃ lexeme, item = .comment lexeme := by
  have each : ∀ item ∈ (cursor.many (preludeItem? false)).1,
      (∀ text, item ≠ .invalid text) → ∃ lexeme, item = .comment lexeme :=
    mem_many (fun cursor item after read valid =>
      let ⟨lexeme, same, _⟩ := comment_of_preludeItem? read valid
      ⟨lexeme, same⟩) cursor
  exact fun item member => each item member (valid item member)

end Source.Cursor

namespace Source

theorem build_score_of_part {text : String} {score : Element}
    (built : build .part text = .ok score) : build .score text = .ok score := by
  obtain ⟨instrument, parts, checked, rfl⟩ := Document.partElement_ok_iff.mp built
  have valid := valid_of_checkPrelude checked
  have same : Document.ofText true text = Document.ofText false text := by
    unfold Document.ofText
    rw [Cursor.prelude_true valid]
  obtain ⟨noChanges, -⟩ := globalChanges_comments (Cursor.comments_of_prelude valid)
  have noGlobals : globalChanges (Document.ofText false text).prelude = .ok [] := noChanges
  rw [build, same, Document.scoreElement, noGlobals, parts, checked]
  rfl

end Source

/-! ## A text with a call is no music -/

namespace Source.Cursor

variable {cursor after : Cursor}

theorem Playable.behind {item : MusicItem} (playable : Playable cursor)
    (read : cursor.musicItem? (fun _ => false) = some (item, after)) : Playable after := by
  unfold Playable music at playable
  rw [many_of_some (consuming_musicItem? _) read, List.forall_mem_cons] at playable
  exact playable.2

theorem musicMark?_of_changes? {group : Changes} (read : cursor.changes? = some (group, after)) :
    cursor.musicMark? = some (.changes group, after) := by
  have first := read
  simp only [changes?, Option.bind_eq_bind, Option.bind_eq_some_iff] at first
  obtain ⟨⟨opening, inside⟩, opens, -⟩ := first
  obtain ⟨c, rest, parts, bracket, -⟩ := next?_eq_some opens
  obtain rfl : c = '(' := by simpa using bracket
  obtain ⟨pos, _⟩ := cursor
  subst parts
  have noNote : (⟨pos, '(' :: rest⟩ : Cursor).note? = none := rfl
  have noRest : (⟨pos, '(' :: rest⟩ : Cursor).rest? = none := rfl
  have noOctave : (⟨pos, '(' :: rest⟩ : Cursor).octaveSet? = none := rfl
  have noMark : (⟨pos, '(' :: rest⟩ : Cursor).mark? = none := rfl
  simp only [musicMark?, noNote, noRest, noOctave, noMark, read]
  rfl

theorem musicMark?_of_comment? {lexeme : Lexeme} (read : cursor.comment? = some (lexeme, after)) :
    cursor.musicMark? = some (.comment lexeme, after) := by
  obtain ⟨pos, body, rfl⟩ := begins_of_comment? read
  have noNote : (⟨pos, '#' :: body⟩ : Cursor).note? = none := rfl
  simp only [musicMark?, noNote, read]
  rfl

theorem musicItem?_of_preludeItem? {withChanges : Bool} {item : PreludeItem}
    (read : cursor.preludeItem? withChanges = some (item, after))
    (valid : ∀ text, item ≠ .invalid text) :
    ∃ same, cursor.musicItem? (fun _ => false) = some (same, after) := by
  rcases preludeItem?_cases read with ⟨group, -, -, changes⟩ | ⟨lexeme, -, comment⟩ |
    ⟨lexeme, starts, rfl, -⟩
  · exact ⟨.changes group, by simp only [musicItem?, musicMark?_of_changes? changes]; rfl⟩
  · exact ⟨.comment lexeme, by simp only [musicItem?, musicMark?_of_comment? comment]; rfl⟩
  · exact absurd rfl (valid lexeme)

theorem playable_behind_prelude {withChanges : Bool} (playable : Playable cursor)
    (valid : ∀ item ∈ (cursor.many (preludeItem? withChanges)).1,
      ∀ text, item ≠ .invalid text) :
    Playable (cursor.many (preludeItem? withChanges)).2 := by
  induction cursor using many.induct (preludeItem? withChanges) with
  | case1 cursor none => rwa [many_of_none none]
  | case2 cursor item after read shorter ih =>
    rw [many_of_some (consuming_preludeItem? withChanges) read] at valid ⊢
    rw [List.forall_mem_cons] at valid
    obtain ⟨same, music⟩ := musicItem?_of_preludeItem? read valid.1
    exact ih (playable.behind music) valid.2
  | case3 cursor item after read longer => exact absurd (consuming_preludeItem? _ _ _ _ read) longer

theorem not_playable_of_part? {part : Part} {element : Element}
    (read : cursor.part? = some (part, after)) (built : part.element = .ok element) :
    ¬ Playable cursor := by
  intro playable
  obtain ⟨behind, called, -, -⟩ := part?_eq_some read
  obtain ⟨line, text, -, -⟩ := call?_exact called (Part.valid_of_element built)
  exact line.not_tame behind.rest (text ▸ tame_skipBlanks (tame_of_playable playable))

end Source.Cursor

namespace Source

theorem Document.not_accepted {withChanges : Bool} {text : String} {element : Element}
    {elements : List Element}
    (checked : checkPrelude (Document.ofText withChanges text).prelude = .ok ())
    (built : partElements (Document.ofText withChanges text).parts = .ok (element :: elements)) :
    ¬ Accepted text := by
  intro accepted
  have playable := Cursor.playable_behind_prelude (playable_of_accepted accepted)
    (valid_of_checkPrelude checked)
  generalize parts : (Document.ofText withChanges text).parts = all at built
  cases all with
  | nil => cases built
  | cons part others =>
    simp only [partElements, bind_eq_ok, pure_eq_ok] at built
    obtain ⟨first, here, -⟩ := built
    have many : (((Cursor.ofText text).many (Cursor.preludeItem? withChanges)).2.many
        Cursor.part?).1 = part :: others := parts
    cases read : ((Cursor.ofText text).many (Cursor.preludeItem? withChanges)).2.part? with
    | none =>
      rw [Cursor.many_of_none read] at many
      cases many
    | some found =>
      obtain ⟨_, after⟩ := found
      rw [Cursor.many_of_some Cursor.consuming_part? read] at many
      obtain ⟨rfl, -⟩ := List.cons.inj many
      exact Cursor.not_playable_of_part? read here playable

end Source

namespace Element

theorem not_accepted_of_instrument {rule : StartRule} (other : rule ≠ .musicData) {text : String}
    {score : Element} (read : read rule text = .ok score)
    (called : score.childrenOf (.plain .instrument) ≠ []) : ¬ Accepted text := by
  have built := read_ok_iff.mp read
  cases rule with
  | score =>
    simp only [build, Document.scoreElement, bind_eq_ok, pure_eq_ok] at built
    obtain ⟨changes, -, instruments, parts, _, checked, rfl⟩ := built
    cases instruments with
    | nil =>
      cases changes <;> exact absurd rfl called
    | cons instrument instruments => exact Document.not_accepted checked parts
  | part =>
    obtain ⟨instrument, parts, checked, -⟩ := Document.partElement_ok_iff.mp built
    exact Document.not_accepted checked parts
  | musicData => exact absurd rfl other

theorem childrenOf_instrument_of_part {text : String} {score : Element}
    (built : build .part text = .ok score) : score.childrenOf (.plain .instrument) ≠ [] := by
  obtain ⟨instrument, -, -, rfl⟩ := Document.partElement_ok_iff.mp built
  have kind := kind_of_read_part (read_ok_iff.mpr built)
  have itself : instrument.isA (.plain .instrument) := by
    rw [isA, kind]
    rfl
  simp [childrenOf, plain, children, itself]

theorem childrenOf_of_readAs {rule : StartRule} {keep : Bool} {text : String}
    {score built : Element} (read : readAs rule keep text = .ok score)
    (whole : build rule text = .ok built) {kind : Kind} :
    score.childrenOf kind = [] ↔ built.childrenOf kind = [] := by
  have same := congrArg (childrenOf · kind) (forgetOrigins_readAs read whole)
  simp only [childrenOf_forgetOrigins] at same
  constructor
  · intro none
    rwa [none, List.map_nil, eq_comm, List.map_eq_nil_iff] at same
  · intro none
    rwa [none, List.map_nil, List.map_eq_nil_iff] at same

theorem refused_as_music {rule : StartRule} (other : rule ≠ .musicData) {keep : Bool}
    {text : String} {score : Element} (read : readAs rule keep text = .ok score)
    (called : score.childrenOf (.plain .instrument) ≠ []) :
    ∃ error, readAs .musicData keep text = .error error := by
  obtain ⟨built, whole, -⟩ := readAs_ok_iff.mp read
  have unread := not_accepted_of_instrument other (read_ok_iff.mpr whole)
    (mt (childrenOf_of_readAs read whole).mpr called)
  cases music : readAs .musicData keep text with
  | ok music' =>
    obtain ⟨heard, accepted, -⟩ := readAs_ok_iff.mp music
    exact absurd ⟨heard, read_ok_iff.mpr accepted⟩ unread
  | error error => exact ⟨error, rfl⟩

end Element

/-! ## The order of the rules -/

namespace Session

/-- If the rules that can read a text all give the same tree, it is read as that tree. -/
theorem readFirst_unique {text : String} {score : Element} {contexts : List String}
    (known : ∀ context ∈ contexts, ∃ rule, StartRule.ofName? context = some rule ∧
      ∀ element, Element.read rule text = .ok element → element = score)
    (found : ∃ context ∈ contexts, ∃ rule, StartRule.ofName? context = some rule ∧
      Element.read rule text = .ok score) :
    ∃ context, readFirst text contexts = .ok (context, score) := by
  induction contexts with
  | nil => simp at found
  | cons context contexts ih =>
    rw [List.forall_mem_cons] at known
    obtain ⟨⟨rule, named, only⟩, others⟩ := known
    cases read : Element.read rule text with
    | ok element =>
      rw [only element read] at read
      exact ⟨context, by simp only [readFirst, named, read]⟩
    | error error =>
      obtain ⟨other, member, rule', named', read'⟩ := found
      have later : other ∈ contexts := by
        rcases List.mem_cons.mp member with rfl | later
        · cases named.symm.trans named'
          cases read.symm.trans read'
        · exact later
      obtain ⟨context', whole⟩ := ih others ⟨other, later, rule', named', read'⟩
      exact ⟨context', by simp only [readFirst, named, read, whole]⟩

theorem read_called {session : Session} {text : String} {score : Element}
    (ordered : session.contexts.Perm ["music_data", "part", "score"])
    (read : Element.read .score text = .ok score)
    (called : score.childrenOf (.plain .instrument) ≠ []) :
    ∃ context, session.read text = .ok (context, score) := by
  have built := read_ok_iff.mp read
  have unread := not_accepted_of_instrument (by decide) read called
  refine readFirst_unique (fun context member => ?_)
    ⟨"score", ordered.mem_iff.mpr (by simp), .score, rfl, read⟩
  have which := ordered.mem_iff.mp member
  simp only [List.mem_cons, List.not_mem_nil, or_false] at which
  rcases which with rfl | rfl | rfl
  · exact ⟨.musicData, rfl, fun element heard => absurd ⟨element, heard⟩ unread⟩
  · refine ⟨.part, rfl, fun element part => ?_⟩
    cases built.symm.trans (build_score_of_part (read_ok_iff.mp part))
    rfl
  · refine ⟨.score, rfl, fun element again => ?_⟩
    cases read.symm.trans again
    rfl

end Session

/-- What is read as a part is read as the same score, and no text with a call is read as music. So
the order of a session's rules does not matter for such a text. -/
theorem start_rules_agree (text : String) :
    (∀ keep score, readAs .part keep text = .ok score →
      readAs .score keep text = .ok score ∧
        ∃ error, readAs .musicData keep text = .error error) ∧
    (∀ keep score, readAs .score keep text = .ok score →
      score.childrenOf (.plain .instrument) ≠ [] →
        ∃ error, readAs .musicData keep text = .error error) ∧
    ∀ keep score (session : Session), readAs .score keep text = .ok score →
      score.childrenOf (.plain .instrument) ≠ [] →
      session.contexts.Perm ["music_data", "part", "score"] →
        ∃ context element, session.read text = .ok (context, element) ∧
          Element.read .score text = .ok element ∧ element.same score := by
  refine ⟨fun keep score read => ?_, fun keep score => refused_as_music (by decide),
    fun keep score session read called ordered => ?_⟩
  · obtain ⟨built, whole, same⟩ := readAs_ok_iff.mp read
    refine ⟨readAs_ok_iff.mpr ⟨built, build_score_of_part whole, same⟩,
      refused_as_music (by decide) read ?_⟩
    exact mt (childrenOf_of_readAs read whole).mp (childrenOf_instrument_of_part whole)
  · obtain ⟨built, whole, -⟩ := readAs_ok_iff.mp read
    obtain ⟨context, found⟩ := Session.read_called ordered (read_ok_iff.mpr whole)
      (mt (childrenOf_of_readAs read whole).mpr called)
    exact ⟨context, built, found, read_ok_iff.mpr whole,
      same_of_forgetOrigins (forgetOrigins_readAs read whole).symm⟩

/-- All that stands before the first quote could be notes, a chord and a comment. -/
def abba : String := "# both\nab/dad \"ee\": c"

theorem abba_agrees :
    (∃ score, readAs .part false abba = .ok score ∧ readAs .score false abba = .ok score ∧
      score.childrenOf (.plain .instrument) ≠ [] ∧
      (∃ error, readAs .musicData false abba = .error error) ∧
      ∃ context element,
        Session.read { contexts := ["score", "music_data", "part"] } abba =
          .ok (context, element) ∧ element.same score) := by
  have succeeds : (readAs .part false abba).toBool := by decide +kernel
  cases read : readAs .part false abba with
  | error error => simp [read, Except.toBool] at succeeds
  | ok score =>
    obtain ⟨built, whole, -⟩ := readAs_ok_iff.mp read
    have called : score.childrenOf (.plain .instrument) ≠ [] :=
      mt (childrenOf_of_readAs read whole).mp (childrenOf_instrument_of_part whole)
    obtain ⟨asScore, refused⟩ := (start_rules_agree abba).1 false score read
    have ordered : ["score", "music_data", "part"].Perm ["music_data", "part", "score"] := by
      decide
    obtain ⟨context, element, found, -, same⟩ :=
      (start_rules_agree abba).2.2 false score { contexts := _ } asScore called ordered
    exact ⟨score, rfl, asScore, called, refused, context, element, found, same⟩

end Partbook
