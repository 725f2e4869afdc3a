import Partbook.Proofs.Writing.Calls

namespace Partbook

open Text Source Element Grammar

/-! ## Instruments -/

theorem eventsIn_of_music {text : String} {events : List Element} (music : Music text events) :
    Accepted text ∧ eventsIn false text = events := by
  obtain ⟨read, built, same⟩ := music_iff.mp music
  have forgotten : readAs .musicData false text = .ok (plain .musicData read).forgetOrigins :=
    readAs_ok_iff.mpr ⟨_, built, rfl⟩
  refine ⟨⟨_, read_ok_iff.mpr built⟩, ?_⟩
  rw [eventsIn, forgotten, ← same]
  exact children_forgetOrigins _

structure Restored (passage : Passage) (instrument : Element) : Prop where
  accepted : ∀ line ∈ passage.2, Accepted line
  same : instrumentOf false passage = instrument
  laidOut : ∀ {passages : List Passage} {more : List Char}, LaidOut passages more →
    LaidOut (passage :: passages) ('\n' :: (instrument.written ++ more))

theorem restored_of_music {line : CallLine} (tidy : line.Tidy) {events : List Element}
    (music : Music (String.ofList (eventsWritten events)) events) :
    Restored (line, [String.ofList (eventsWritten events)])
      (plain .instrument [line.element, plain .musicData events]) := by
  obtain ⟨accepted, same⟩ := eventsIn_of_music music
  refine ⟨by simpa using accepted, ?_, ?_⟩
  · rw [instrumentOf, List.flatMap_singleton, same]
  · intro passages more laid
    have written : (plain .instrument [line.element, plain .musicData events]).written ++ more =
        line.chars ++ ' ' :: (eventsWritten events ++ more) := by
      rw [written_bare rfl rfl, writtenAll_cons, tidy.written_element, writtenAll_later (by decide),
        List.flatMap_singleton, written_bare rfl rfl, List.append_assoc]
      rfl
    rw [written]
    refine .cons line (fun pos => ?_) laid
    have lines : lineChars [String.ofList (eventsWritten events)] ++ more =
        '\n' :: (eventsWritten events ++ more) := by
      simp [lineChars]
    rw [lines, skipBlanks_blank rfl, skipBlanks_blank rfl]

/-- But for its origins, the instrument is a call in its tidy form, and events that are read from
what is written of them. -/
def Rewritten (instrument : Element) : Prop :=
  ∃ line events, CallLine.Tidy line ∧ Music (String.ofList (eventsWritten events)) events ∧
    instrument.forgetOrigins = plain .instrument [line.element, plain .musicData events]

theorem Rewritten.exists_restored {instrument : Element} (rewritten : Rewritten instrument) :
    ∃ passage, Restored passage instrument.forgetOrigins := by
  obtain ⟨line, events, tidy, music, same⟩ := rewritten
  exact same ▸ ⟨_, restored_of_music tidy music⟩

theorem rewritten_of_part {part : Part} {instrument : Element}
    (read : ∃ cursor after, Cursor.part? cursor = some (part, after))
    (built : part.element = .ok instrument) : Rewritten instrument := by
  obtain ⟨cursor, after, read⟩ := read
  obtain ⟨behind, called, music, -⟩ := Cursor.part?_eq_some read
  obtain ⟨line, tidy, names, nickname⟩ := exists_tidy called (Part.valid_of_element built)
  obtain ⟨origin, element, heard, rfl⟩ := Part.element_ok built
  have shape := heard
  simp only [musicElement, bind_eq_ok, pure_eq_ok] at shape
  obtain ⟨_, -, events, -, rfl⟩ := shape
  have plays : Plays (behind.music startsCall).1 events := by
    rw [← music]
    exact heard
  refine ⟨line, _, tidy, music_again plays, ?_⟩
  simp only [forgetOrigins_plain, List.map_cons, List.map_nil, forget_spelledOut names nickname]

theorem rewritten_of_parts {parts : List Part} {instruments : List Element}
    (read : ∀ part ∈ parts, ∃ cursor after, Cursor.part? cursor = some (part, after))
    (built : partElements parts = .ok instruments) :
    ∀ instrument ∈ instruments, Rewritten instrument := by
  intro instrument member
  obtain ⟨part, within, here⟩ := exists_part_of_mem built instrument member
  exact rewritten_of_part (read part within) here

theorem exists_restoredAll {instruments : List Element}
    (rewritten : ∀ instrument ∈ instruments, Rewritten instrument) :
    ∃ passages, List.Forall₂ Restored passages (instruments.map forgetOrigins) := by
  induction instruments with
  | nil => exact ⟨[], .nil⟩
  | cons instrument instruments ih =>
    rw [List.forall_mem_cons] at rewritten
    obtain ⟨passage, first⟩ := rewritten.1.exists_restored
    obtain ⟨passages, rest⟩ := ih rewritten.2
    exact ⟨passage :: passages, .cons first rest⟩

variable {passages : List Passage} {instruments : List Element}

theorem laidOut_of_restored (restored : List.Forall₂ Restored passages instruments) :
    LaidOut passages (instruments.flatMap fun instrument => '\n' :: instrument.written) := by
  induction restored with
  | nil => exact .nil
  | cons first rest ih => exact first.laidOut ih

theorem accepted_of_restored (restored : List.Forall₂ Restored passages instruments) :
    ∀ passage ∈ passages, ∀ line ∈ passage.2, Accepted line := by
  induction restored with
  | nil => simp
  | cons first rest ih => exact List.forall_mem_cons.mpr ⟨first.accepted, ih⟩

theorem instruments_of_restored (restored : List.Forall₂ Restored passages instruments) :
    passages.map (instrumentOf false) = instruments := by
  induction restored with
  | nil => rfl
  | cons first rest ih => rw [List.map_cons, first.same, ih]

theorem playable_of_restored (restored : List.Forall₂ Restored passages instruments) :
    ∀ passage ∈ passages, ∀ line ∈ passage.2, (Cursor.ofText line).Playable :=
  fun passage member line within =>
    playable_of_accepted (accepted_of_restored restored passage member line within)

theorem parts_again (restored : List.Forall₂ Restored passages (instruments.map forgetOrigins))
    {parts : List Part} (same : List.Forall₂ Matches passages parts) :
    ∃ again, partElements parts = .ok again ∧
      again.map forgetOrigins = instruments.map forgetOrigins := by
  obtain ⟨again, built, alike⟩ :=
    partElements_of_matches same (accepted_of_restored restored) false
  refine ⟨again, built, ?_⟩
  rw [alike, instruments_of_restored restored, List.map_map]
  exact List.map_congr_left fun instrument _ => forgetOrigins_idem instrument

/-! ## Documents -/

theorem read_parts (withChanges : Bool) (text : String) :
    ∀ part ∈ (Document.ofText withChanges text).parts,
      ∃ cursor after, Cursor.part? cursor = some (part, after) :=
  Cursor.mem_many (fun cursor _ after read => ⟨cursor, after, read⟩) _

theorem read_changes (withChanges : Bool) (text : String) :
    ∀ item ∈ (Document.ofText withChanges text).prelude, ∀ group, item = .changes group →
      ∃ cursor after, Cursor.changes? cursor = some (group, after) :=
  Cursor.mem_many (fun cursor _ after read _ same =>
    ⟨cursor.skipBlanks, after, Cursor.changes?_of_preludeItem? (same ▸ read)⟩) _

theorem isChange_of_globals {items : List PreludeItem} {changes : List Element}
    (read : ∀ item ∈ items, ∀ group, item = .changes group →
      ∃ cursor after, Cursor.changes? cursor = some (group, after))
    (built : globalChanges items = .ok changes) :
    ∀ change ∈ changes.map forgetOrigins, IsChange change := by
  induction items generalizing changes with
  | nil =>
    cases built
    simp
  | cons item items ih =>
    rw [List.forall_mem_cons] at read
    cases item with
    | changes group =>
      simp only [globalChanges, bind_eq_ok, pure_eq_ok] at built
      obtain ⟨tree, here, later, built, rfl⟩ := built
      obtain ⟨cursor, after, found⟩ := read.1 group rfl
      have event := changes?_sound found here
      have kind : tree.forgetOrigins.kind = .plain .attributeChanges := by
        simp only [Source.Changes.element, bind_eq_ok] at here
        obtain ⟨_, -, here⟩ := here
        split at here
        · cases here
        · simp only [bind_eq_ok, pure_eq_ok] at here
          obtain ⟨_, -, rfl⟩ := here
          rfl
      have each := event.each_change kind
      rw [children_forgetOrigins] at each
      rw [List.map_append]
      exact List.forall_mem_append.mpr ⟨each, ih read.2 built⟩
    | comment text | invalid text => exact ih read.2 built

theorem written_score (first : Element) (others : List Element) :
    (plain .score (first :: others)).written =
      first.written ++ others.flatMap fun element => '\n' :: element.written := by
  rw [written_bare rfl rfl, writtenAll_cons, writtenAll_later (by decide)]
  rfl

theorem document_again (restored : List.Forall₂ Restored passages instruments)
    (withChanges : Bool) {text : String} (here : text.toList = (plain .score instruments).written) :
    (Document.ofText withChanges text).prelude = [] ∧
      List.Forall₂ Matches passages (Document.ofText withChanges text).parts := by
  refine document_of_passages (laidOut_of_restored restored) withChanges
    (playable_of_restored restored) ?_
  rw [here]
  cases instruments with
  | nil => rfl
  | cons instrument instruments =>
    rw [written_score, List.flatMap_cons, List.cons_append, List.dropWhile_cons_of_pos rfl]

theorem written_globals (changes : List Element) : (plain .globalAttributes changes).written =
    '(' :: (writtenAll (.plain .attributeChanges) true changes ++ [')']) := by
  have joined : writtenAll (.plain .globalAttributes) true changes =
      writtenAll (.plain .attributeChanges) true changes := by
    cases changes with
    | nil => rfl
    | cons change changes =>
      rw [writtenAll_cons, writtenAll_cons, writtenAll_later (by decide),
        writtenAll_later (by decide)]
      rfl
  rw [written_plain, joined]
  rfl

theorem document_of_changes {changes : List Element} (each : ∀ change ∈ changes, IsChange change)
    {more : List Char} (laid : LaidOut passages more)
    (playable : ∀ passage ∈ passages, ∀ line ∈ passage.2, (Cursor.ofText line).Playable)
    {text : String} (here : text.toList =
      '(' :: (writtenAll (.plain .attributeChanges) true changes ++ ')' :: more)) :
    ∃ group tree, (Document.ofText true text).prelude = [.changes group] ∧
      group.element = .ok tree ∧ tree.forgetOrigins = plain .attributeChanges changes ∧
      List.Forall₂ Matches passages (Document.ofText true text).parts := by
  obtain ⟨group, behind, tree, read, built, same⟩ :=
    changes?_complete (changes_again each more) 0
  rw [← here] at read
  have noCall : startsCall text.toList = false := by
    rw [here]
    cases writtenAll (.plain .attributeChanges) true changes <;> rfl
  have item : (Cursor.ofText text).preludeItem? true = some (.changes group, ⟨behind, more⟩) := by
    have visible : (Cursor.ofText text).skipBlanks = ⟨0, text.toList⟩ := by
      rw [Cursor.ofText, here, skipBlanks_visible rfl]
    simp only [Cursor.preludeItem?, visible, noCall, Bool.false_eq_true, if_false, if_true, read]
    rfl
  have none : (⟨behind, more⟩ : Cursor).preludeItem? true = none := laid.preludeItem? true rfl
  have shorter : more.length < (Cursor.ofText text).rest.length :=
    (Cursor.advances_changes? read).2
  have prelude : (Cursor.ofText text).many (Cursor.preludeItem? true) =
      ([.changes group], ⟨behind, more⟩) := by
    rw [Cursor.many, item]
    simp only [shorter, if_true, Cursor.many_of_none none]
  refine ⟨group, tree, ?_, built, same, ?_⟩
  · rw [Document.ofText, prelude]
  · rw [Document.ofText, prelude]
    exact laid.parts playable rfl

/-! ## Writing and reading -/

theorem instruments_again
    (restored : List.Forall₂ Restored passages (instruments.map forgetOrigins))
    (withChanges : Bool) :
    let document := Document.ofText withChanges
      (String.ofList (plain .score instruments).forgetOrigins.written)
    document.prelude = [] ∧ ∃ again, partElements document.parts = .ok again ∧
      again.length = instruments.length ∧
      (plain .score again).forgetOrigins = (plain .score instruments).forgetOrigins := by
  have written : (String.ofList (plain .score instruments).forgetOrigins.written).toList =
      (plain .score (instruments.map forgetOrigins)).written := by
    rw [String.toList_ofList, forgetOrigins_plain]
  obtain ⟨noPrelude, same⟩ := document_again restored withChanges written
  obtain ⟨again, whole, alike⟩ := parts_again restored same
  refine ⟨noPrelude, again, whole, ?_, by rw [forgetOrigins_plain, forgetOrigins_plain, alike]⟩
  rw [← List.length_map, alike, List.length_map]

theorem build_score_of_changes {text : String} {group : Source.Changes} {tree : Element}
    (prelude : (Document.ofText true text).prelude = [.changes group])
    (built : group.element = .ok tree) (nonempty : tree.children ≠ [])
    (parts : partElements (Document.ofText true text).parts = .ok instruments) :
    build .score text =
      .ok (plain .score (plain .globalAttributes tree.children :: instruments)) := by
  have globals : globalChanges [.changes group] = .ok tree.children := by
    rw [globalChanges, built]
    exact congrArg Except.ok (List.append_nil _)
  rw [build, Document.scoreElement, prelude, globals, parts]
  show Except.ok (plain .score ((if tree.children.isEmpty then [] else
    [plain .globalAttributes tree.children]) ++ instruments)) = _
  rw [if_neg (by simpa using nonempty)]
  rfl

theorem score_again {text : String} {score : Element} (built : build .score text = .ok score) :
    ∃ again, build .score (String.ofList score.forgetOrigins.written) = .ok again ∧
      again.forgetOrigins = score.forgetOrigins := by
  simp only [build, Document.scoreElement, bind_eq_ok, pure_eq_ok] at built
  obtain ⟨changes, globals, instruments, parts, _, -, rfl⟩ := built
  obtain ⟨passages, restored⟩ :=
    exists_restoredAll (rewritten_of_parts (read_parts true text) parts)
  have each := isChange_of_globals (read_changes true text) globals
  cases changes with
  | nil =>
    obtain ⟨noPrelude, again, whole, -, same⟩ := instruments_again restored true
    exact ⟨_, build_score_of_parts noPrelude whole, same⟩
  | cons change changes =>
    let globals := plain .globalAttributes (change :: changes)
    have written : (String.ofList (plain .score (globals :: instruments)).forgetOrigins.written
        ).toList = '(' :: (writtenAll (.plain .attributeChanges) true
          ((change :: changes).map forgetOrigins) ++ ')' ::
            (instruments.map forgetOrigins).flatMap fun element => '\n' :: element.written) := by
      rw [String.toList_ofList, forgetOrigins_plain, List.map_cons, forgetOrigins_plain,
        written_score, written_globals, List.cons_append, List.append_assoc]
      rfl
    obtain ⟨group, tree, prelude, built, attributes, same⟩ :=
      document_of_changes each (laidOut_of_restored restored) (playable_of_restored restored)
        written
    obtain ⟨again, whole, alike⟩ := parts_again restored same
    have children : tree.children.map forgetOrigins = (change :: changes).map forgetOrigins := by
      rw [← children_forgetOrigins, attributes]
      rfl
    have nonempty : tree.children ≠ [] := by
      intro none
      rw [none] at children
      cases children
    refine ⟨_, build_score_of_changes prelude built nonempty whole, ?_⟩
    show _ = (plain .score (globals :: instruments)).forgetOrigins
    rw [forgetOrigins_plain, forgetOrigins_plain, List.map_cons, List.map_cons, alike,
      forgetOrigins_plain, forgetOrigins_plain, children]

theorem part_again {text : String} {part : Element} (built : build .part text = .ok part) :
    ∃ again, build .part (String.ofList part.forgetOrigins.written) = .ok again ∧
      again.forgetOrigins = part.forgetOrigins := by
  obtain ⟨instrument, parts, -, rfl⟩ := Document.partElement_ok_iff.mp built
  obtain ⟨passages, restored⟩ :=
    exists_restoredAll (rewritten_of_parts (read_parts false text) parts)
  obtain ⟨noPrelude, again, whole, length, same⟩ := instruments_again restored false
  obtain ⟨only, rfl⟩ := List.length_eq_one_iff.mp length
  exact ⟨_, Document.partElement_ok_iff.mpr ⟨only, whole, by rw [noPrelude]; rfl, rfl⟩, same⟩

theorem music_data_again {text : String} {music : Element}
    (built : build .musicData text = .ok music) :
    ∃ again, build .musicData (String.ofList music.forgetOrigins.written) = .ok again ∧
      again.forgetOrigins = music.forgetOrigins := by
  have shape : musicElement (musicOfText text) = .ok music := built
  simp only [musicElement, bind_eq_ok, pure_eq_ok] at shape
  obtain ⟨_, -, events, -, rfl⟩ := shape
  obtain ⟨again, whole, same⟩ := music_iff.mp (music_again built)
  refine ⟨plain .musicData again, ?_, by rw [forgetOrigins_plain, forgetOrigins_plain, same]⟩
  rw [forgetOrigins_plain, written_bare rfl rfl]
  exact whole

theorem build_again {rule : StartRule} {text : String} {element : Element}
    (built : build rule text = .ok element) :
    ∃ again, build rule (String.ofList element.forgetOrigins.written) = .ok again ∧
      again.forgetOrigins = element.forgetOrigins := by
  cases rule with
  | score => exact score_again built
  | part => exact part_again built
  | musicData => exact music_data_again built

/-- Whatever is read can be written. What is written is read by the same rule, as the same tree, and
this is written the same way. -/
theorem Element.readAs_write {rule : StartRule} {keep : Bool} {text : String} {element : Element}
    (read : readAs rule keep text = .ok element) (keepAgain : Bool) :
    ∃ written again, element.write = .ok written ∧ readAs rule keepAgain written = .ok again ∧
      again.same element ∧ again.write = .ok written := by
  obtain ⟨built, whole, -⟩ := readAs_ok_iff.mp read
  have alike := forgetOrigins_readAs read whole
  obtain ⟨rebuilt, wholeAgain, alikeAgain⟩ := build_again whole
  obtain ⟨again, readAgain, same⟩ := exists_readAs wholeAgain keepAgain
  have equal : again.forgetOrigins = element.forgetOrigins := by rw [same, alikeAgain, alike]
  have written : element.write = .ok (String.ofList built.forgetOrigins.written) := by
    rw [← write_forgetOrigins, alike]
    exact write_of_isSpelled (isSpelled_forgetOrigins (isSpelled_of_build whole))
  refine ⟨_, again, written, readAgain, same_of_forgetOrigins equal, ?_⟩
  rw [← write_forgetOrigins, equal, write_forgetOrigins, written]

theorem Element.readAs_write_duo : ∃ element written again,
    readAs .score true "(tempo 90)\n( vol! 5,key g) violin/cello \"duo\"  :c+4.8~/e~ r4~2\n" =
        .ok element ∧
      element.write = .ok written ∧
      written = "(tempo 90, vol! 5, key g)\nviolin/cello \"duo\": c+4.8~/e~ r4~2" ∧
      readAs .score false written = .ok again ∧ again.same element ∧
      again.write = .ok written := by
  have shown : ((readAs .score true
      "(tempo 90)\n( vol! 5,key g) violin/cello \"duo\"  :c+4.8~/e~ r4~2\n").toOption.bind
        fun element => element.write.toOption) =
      some "(tempo 90, vol! 5, key g)\nviolin/cello \"duo\": c+4.8~/e~ r4~2" := by
    decide +kernel
  obtain ⟨element, read, wrote⟩ := Option.bind_eq_some_iff.mp shown
  rw [toOption_eq_some] at read wrote
  obtain ⟨written, again, writes, readAgain, same, writesAgain⟩ := readAs_write read false
  cases wrote.symm.trans writes
  exact ⟨element, _, again, read, writes, rfl, readAgain, same, writesAgain⟩

end Partbook
