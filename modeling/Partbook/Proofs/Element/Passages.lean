import Partbook.Proofs.Element.Origins
import Partbook.Proofs.Form.Projection
import Partbook.Proofs.Roster.Scores
import Partbook.Proofs.Source.Lines

namespace Partbook

open Source

namespace Source

def Accepted (line : String) : Prop := ∃ music, Element.read .musicData line = .ok music

def heardIn (line : String) : List Form :=
  match Element.read .musicData line with
  | .ok music => Form.formsOf music.children
  | .error _ => []

def CallLine.calling (line : CallLine) : Element :=
  .calling (line.name :: line.others) (line.nickname.map (·.2))

end Source

namespace Element

structure Heard (line : String) (events : List Element) : Prop where
  read : Element.read .musicData line = .ok (.plain .musicData events)
  plays : Plays (musicOfText line) events
  spelled : ∀ event ∈ events, event.isSpelled
  forms : heardIn line = Form.formsOf events

theorem heard_of_accepted {line : String} (accepted : Accepted line) :
    ∃ events, Heard line events := by
  obtain ⟨music, read⟩ := accepted
  have built : musicElement (musicOfText line) = .ok music := read_ok_iff.mp read
  have spelled := isSpelled_musicElement (numeric_musicOfText line) built
  have shape := built
  simp only [musicElement, bind_eq_ok, pure_eq_ok] at shape
  obtain ⟨_, _, events, -, rfl⟩ := shape
  exact ⟨events, read, built, isSpelled_children spelled, by rw [heardIn, read]; rfl⟩

theorem playable_of_accepted {line : String} (accepted : Accepted line) :
    (Cursor.ofText line).Playable := by
  obtain ⟨events, heard⟩ := heard_of_accepted accepted
  exact isValid_of_musicElement heard.plays

theorem heard_lines {lines : List String} (accepted : ∀ line ∈ lines, Accepted line) :
    ∃ heard, List.Forall₂ (fun line events => Plays (musicOfText line) events) lines heard ∧
      (∀ event ∈ heard.flatten, event.isSpelled) ∧
      Form.formsOf heard.flatten = lines.flatMap heardIn := by
  induction lines with
  | nil => exact ⟨[], .nil, by simp, rfl⟩
  | cons line lines ih =>
    rw [List.forall_mem_cons] at accepted
    obtain ⟨events, here⟩ := heard_of_accepted accepted.1
    obtain ⟨heard, plays, spelled, forms⟩ := ih accepted.2
    refine ⟨events :: heard, .cons here.plays plays, ?_, ?_⟩
    · rw [List.flatten_cons]
      exact List.forall_mem_append.mpr ⟨here.spelled, spelled⟩
    · rw [List.flatten_cons, Form.formsOf_append here.spelled spelled, forms, List.flatMap_cons,
        here.forms]

structure Scored (passage : Passage) (instrument : Element) : Prop where
  called : instrument.WellCalled
  kind : instrument.kind = .plain .instrument
  names : instrument.calledNames = passage.1.calling.calledNames
  nickname : instrument.calledNickname = passage.1.calling.calledNickname
  spelled : ∀ event ∈ Parts.eventsOf instrument, event.isSpelled
  forms : Form.formsOf (Parts.eventsOf instrument) = passage.2.flatMap heardIn

theorem eventsOf_called (call : Call) (origin : Lexeme → Origin) (events : List Element) :
    Parts.eventsOf (plain .instrument [call.spelledOut origin, plain .musicData events]) =
      events := by
  have noMusic : (call.spelledOut origin).isA (.plain .musicData) = false := rfl
  have isMusic : (plain .musicData events).isA (.plain .musicData) = true := rfl
  simp only [Parts.eventsOf, childrenOf, plain, children] at isMusic ⊢
  simp [noMusic, isMusic, children]

theorem element_of_plays {part : Part} (valid : ∀ text, part.call.quotation ≠ some (.invalid text))
    {events : List Element} (plays : Plays part.music events) :
    ∃ origin, part.element = .ok (plain .instrument
      [part.call.spelledOut origin, plain .musicData events]) := by
  obtain ⟨origin, built⟩ := Call.exists_element valid
  exact ⟨origin, by rw [Part.element, built, show musicElement part.music = _ from plays]; rfl⟩

theorem element_of_matches {passage : Passage} {part : Part} (same : Matches passage part)
    {heard : List (List Element)}
    (each : List.Forall₂ (fun line events => Plays (musicOfText line) events) passage.2 heard) :
    ∃ origin events, Plays part.music events ∧
      events.map forgetOrigins = heard.flatten.map forgetOrigins ∧
      part.element = .ok (plain .instrument
        [part.call.spelledOut origin, plain .musicData events]) := by
  obtain ⟨events, read, origins⟩ := same.music.plays each
  obtain ⟨origin, built⟩ := element_of_plays same.valid read
  exact ⟨origin, events, read, origins, built⟩

theorem exists_scored {passage : Passage} {part : Part} (same : Matches passage part)
    (accepted : ∀ line ∈ passage.2, Accepted line)
    (numeric : ∀ item ∈ part.music, item.Numeric) :
    ∃ instrument, part.element = .ok instrument ∧ Scored passage instrument := by
  obtain ⟨heard, plays, spelledLines, forms⟩ := heard_lines accepted
  obtain ⟨origin, events, read, origins, built⟩ := element_of_matches same plays
  have spelled : (plain .musicData events).isSpelled := isSpelled_musicElement numeric read
  refine ⟨_, built, wellCalled_spelledOut (by simpa using spelled) origin, rfl, ?_, ?_, ?_, ?_⟩
  · rw [calledNames_spelledOut, CallLine.calling, calledNames_calling, ← same.names, List.map_map]
    rfl
  · rw [calledNickname, calledNickname, calledNicknames_spelledOut, CallLine.calling,
      calledNicknames_calling, ← same.nickname]
    cases part.call.nickname? <;> rfl
  · rw [eventsOf_called]
    exact isSpelled_children spelled
  · rw [eventsOf_called, Form.formsOf_forgetOrigins origins, forms]

theorem partElements_scored {passages : List Passage} {parts : List Part}
    (same : List.Forall₂ Matches passages parts)
    (accepted : ∀ passage ∈ passages, ∀ line ∈ passage.2, Accepted line)
    (numeric : ∀ part ∈ parts, ∀ item ∈ part.music, item.Numeric) :
    ∃ instruments, partElements parts = .ok instruments ∧
      List.Forall₂ Scored passages instruments := by
  induction same with
  | nil => exact ⟨[], rfl, .nil⟩
  | cons first rest ih =>
    rw [List.forall_mem_cons] at accepted numeric
    obtain ⟨instrument, here, scored⟩ := exists_scored first accepted.1 numeric.1
    obtain ⟨instruments, later, scoredLater⟩ := ih accepted.2 numeric.2
    exact ⟨instrument :: instruments, by rw [partElements, here, later]; rfl,
      .cons scored scoredLater⟩

theorem build_score_of_parts {text : String} {instruments : List Element}
    (noPrelude : (Document.ofText true text).prelude = [])
    (parts : partElements (Document.ofText true text).parts = .ok instruments) :
    build .score text = .ok (plain .score instruments) := by
  rw [build, Document.scoreElement, noPrelude, parts]
  rfl

theorem read_score {passages : List Passage}
    (accepted : ∀ passage ∈ passages, ∀ line ∈ passage.2, Accepted line) :
    ∃ instruments, read .score ("\n".intercalate (linesOf passages)) =
        .ok (.plain .score instruments) ∧ List.Forall₂ Scored passages instruments := by
  have playable : ∀ passage ∈ passages, ∀ line ∈ passage.2, (Cursor.ofText line).Playable :=
    fun passage member line within => playable_of_accepted (accepted passage member line within)
  obtain ⟨noPrelude, same⟩ := document_of_passages (laidOut_passages passages) true playable
    (dropWhile_linesOf passages)
  obtain ⟨instruments, built, scored⟩ :=
    partElements_scored same accepted (Document.numeric_ofText true _).2
  exact ⟨instruments, read_ok_iff.mpr (build_score_of_parts noPrelude built), scored⟩

theorem document_of_call (call : CallLine) (withChanges : Bool) :
    (Document.ofText withChanges call.text).prelude = [] ∧
      List.Forall₂ Matches [(call, [])] (Document.ofText withChanges call.text).parts := by
  have laid : LaidOut [(call, [])] ('\n' :: (call.chars ++ [])) := .cons call (fun _ => rfl) .nil
  have here : call.text.toList.dropWhile Text.isBlank =
      ('\n' :: (call.chars ++ [])).dropWhile Text.isBlank := by
    rw [LaidOut.dropWhile_call, ← call.dropWhile_chars, List.append_nil]
    simp [CallLine.text]
  exact document_of_passages laid withChanges (by simp) here

theorem read_part (call : CallLine) : ∃ instrument,
    read .part call.text = .ok (.plain .score [instrument]) ∧ Scored (call, []) instrument := by
  obtain ⟨noPrelude, same⟩ := document_of_call call false
  obtain ⟨instruments, built, scored⟩ :=
    partElements_scored same (by simp) (Document.numeric_ofText false _).2
  cases scored with
  | cons scored rest =>
    cases rest
    refine ⟨_, read_ok_iff.mpr (Document.partElement_ok_iff.mpr ⟨_, built, ?_, rfl⟩), scored⟩
    rw [noPrelude]
    rfl

theorem not_accepted_callLine (call : CallLine) : ¬ Accepted call.text := by
  intro accepted
  have tame := Cursor.tame_of_playable (playable_of_accepted accepted)
  have chars : (Cursor.ofText call.text).rest = call.chars := by
    simp [Cursor.ofText, CallLine.text]
  exact call.not_tame [] (by rwa [List.append_nil, ← chars])

end Element

end Partbook
