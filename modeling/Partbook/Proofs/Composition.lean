import Partbook.Proofs.LineByLine

namespace Partbook

open Source

def Source.CallLine.element (call : CallLine) : Element :=
  .plain .instrumentCall ((call.name :: call.others).map (fun name => .text .name (.text name))
    ++ call.nickname.toList.map fun given => .text .nickname (.text given.2))

namespace Element

def eventsIn (keep : Bool) (line : String) : List Element :=
  match readAs .musicData keep line with
  | .ok music => music.children
  | .error _ => []

def instrumentOf (keep : Bool) (passage : Passage) : Element :=
  .plain .instrument
    [passage.1.element, .plain .musicData (passage.2.flatMap (eventsIn keep))]

theorem forget_spelledOut {call : Call} {line : CallLine}
    (names : call.names.map Lexeme.text = line.name :: line.others)
    (nickname : call.nickname?.map Lexeme.text = line.nickname.map (·.2))
    (origin : Lexeme → Origin) : (call.spelledOut origin).forgetOrigins = line.element := by
  have given := congrArg (fun text => text.toList.map fun text =>
    Element.text .nickname (.text text)) nickname
  simp only [Option.toList_map, List.map_map, Function.comp_def] at given
  rw [Call.spelledOut, forgetOrigins_node, List.map_append, List.map_map, List.map_map,
    CallLine.element, ← names, ← given, List.map_map]
  rfl

theorem forget_callElement (call : CallLine) : call.element.forgetOrigins = call.element := by
  rw [CallLine.element, forgetOrigins_plain, List.map_append, List.map_map, List.map_map]
  rfl

theorem eventsIn_of_heard {line : String} {events : List Element} (heard : Heard line events)
    (keep : Bool) : (eventsIn keep line).map forgetOrigins = events.map forgetOrigins := by
  obtain ⟨music, read, same⟩ := exists_readAs (read_ok_iff.mp heard.read) keep
  have children := congrArg Element.children same
  rw [eventsIn, read, ← children_forgetOrigins, children, forgetOrigins_plain]
  rfl

theorem exists_heard {lines : List String} (accepted : ∀ line ∈ lines, Accepted line)
    (keep : Bool) : ∃ heard,
      List.Forall₂ (fun line events => Plays (musicOfText line) events) lines heard ∧
        heard.flatten.map forgetOrigins = (lines.flatMap (eventsIn keep)).map forgetOrigins := by
  induction lines with
  | nil => exact ⟨[], .nil, rfl⟩
  | cons line lines ih =>
    rw [List.forall_mem_cons] at accepted
    obtain ⟨events, here⟩ := heard_of_accepted accepted.1
    obtain ⟨heard, plays, same⟩ := ih accepted.2
    refine ⟨events :: heard, .cons here.plays plays, ?_⟩
    rw [List.flatten_cons, List.map_append, same, ← eventsIn_of_heard here keep, ← List.map_append,
      List.flatMap_cons]

theorem partElements_of_matches {passages : List Passage} {parts : List Part}
    (same : List.Forall₂ Matches passages parts)
    (accepted : ∀ passage ∈ passages, ∀ line ∈ passage.2, Accepted line) (keep : Bool) :
    ∃ instruments, partElements parts = .ok instruments ∧
      instruments.map forgetOrigins =
        (passages.map (instrumentOf keep)).map forgetOrigins := by
  induction same with
  | nil => exact ⟨[], rfl, rfl⟩
  | @cons passage part passages parts first rest ih =>
    rw [List.forall_mem_cons] at accepted
    obtain ⟨heard, plays, events⟩ := exists_heard accepted.1 keep
    obtain ⟨origin, read, -, origins, built⟩ := element_of_matches first plays
    obtain ⟨instruments, later, others⟩ := ih accepted.2
    refine ⟨_ :: instruments, by rw [partElements, built, later]; rfl, ?_⟩
    have alike : (plain .instrument [part.call.spelledOut origin, plain .musicData read]
        ).forgetOrigins = (instrumentOf keep passage).forgetOrigins := by
      simp only [instrumentOf, forgetOrigins_plain, List.map_cons, List.map_nil,
        forget_spelledOut first.names first.nickname, forget_callElement, origins, events]
    rw [List.map_cons, List.map_cons, List.map_cons, others, alike]

/-- Calls and lines of accepted music, joined with line ends, are read as the score of the calls
with the events of their lines, however these are read. -/
theorem readAs_passages {passages : List Passage}
    (accepted : ∀ passage ∈ passages, ∀ line ∈ passage.2, Accepted line) (keep keepEach : Bool) :
    ∃ score, readAs .score keep ("\n".intercalate (linesOf passages)) = .ok score ∧
      score.forgetOrigins =
        (plain .score (passages.map (instrumentOf keepEach))).forgetOrigins ∧
      score.same (plain .score (passages.map (instrumentOf keepEach))) := by
  have playable : ∀ passage ∈ passages, ∀ line ∈ passage.2, (Cursor.ofText line).Playable :=
    fun passage member line within => playable_of_accepted (accepted passage member line within)
  obtain ⟨noPrelude, same⟩ := document_of_passages (laidOut_passages passages) true playable
    (dropWhile_linesOf passages)
  obtain ⟨instruments, built, alike⟩ := partElements_of_matches same accepted keepEach
  obtain ⟨score, read, forgotten⟩ := exists_readAs (build_score_of_parts noPrelude built) keep
  have equal : score.forgetOrigins =
      (plain .score (passages.map (instrumentOf keepEach))).forgetOrigins := by
    rw [forgotten, forgetOrigins_plain, forgetOrigins_plain, alike]
  exact ⟨score, read, equal, same_of_forgetOrigins equal⟩

theorem readAs_twoPianos :
    (∀ passage ∈ twoPianos, ∀ line ∈ passage.2, Accepted line) ∧
      ∃ score, readAs .score false ("\n".intercalate (linesOf twoPianos)) = .ok score ∧
        score.forgetOrigins =
          (plain .score (twoPianos.map (instrumentOf true))).forgetOrigins ∧
        score.same (plain .score (twoPianos.map (instrumentOf true))) :=
  ⟨accepted_twoPianos, readAs_passages accepted_twoPianos false true⟩

end Element

end Partbook
