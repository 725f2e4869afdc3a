import Partbook.Proofs.Writing.Handmade
import Partbook.Proofs.Writing.Scores

/-!
Calls made by hand. The constructors accept the names and the nickname of a call if and only if the
line that is written with them is read as just that call.
-/
namespace Partbook

open Text Source Element

/-! ## Making calls -/

theorem checkedAll_texts_ok_iff {kind : TextKind} {texts : List String} {elements : List Element} :
    checkedAll kind (texts.map .text) = .ok elements ↔
      (∀ text ∈ texts, kind.accepts (.text text)) ∧
        texts.map (fun text => .text kind (.text text)) = elements := by
  induction texts generalizing elements with
  | nil => simp [checkedAll]
  | cons text texts ih =>
    simp only [List.map_cons, checkedAll, bind_eq_ok, pure_eq_ok, checked_ok_iff, ih,
      List.forall_mem_cons]
    constructor
    · rintro ⟨_, ⟨first, rfl⟩, _, ⟨others, rfl⟩, rfl⟩
      exact ⟨⟨first, others⟩, rfl⟩
    · rintro ⟨⟨first, others⟩, rfl⟩
      exact ⟨_, ⟨first, rfl⟩, _, ⟨others, rfl⟩, rfl⟩

structure CallHeads where
  name : String
  others : List String
  nickname : Option String

namespace CallHeads

def make (heads : CallHeads) : Except MakeError Element := do
  let names ← checkedAll .name ((heads.name :: heads.others).map .text)
  let nickname ← checkedAll .nickname (heads.nickname.toList.map .text)
  return .plain .instrumentCall (names ++ nickname)

def element (heads : CallHeads) : Element :=
  .plain .instrumentCall ((heads.name :: heads.others).map (fun name => .text .name (.text name))
    ++ heads.nickname.toList.map fun given => .text .nickname (.text given))

def score (heads : CallHeads) : Element :=
  .plain .score [.plain .instrument [heads.element, .plain .musicData []]]

/-- The names with slashes between them, the nickname in quotes behind a blank, and a colon. -/
def text (heads : CallHeads) : String :=
  "/".intercalate (heads.name :: heads.others)
    ++ heads.nickname.elim "" (fun given => " \"" ++ given ++ "\"") ++ ":"

structure Named (heads : CallHeads) : Prop where
  names : ∀ name ∈ heads.name :: heads.others, isName name.toList
  nickname : ∀ given ∈ heads.nickname, isName given.toList

variable {heads : CallHeads} {call : Element}

theorem make_ok_iff : heads.make = .ok call ↔ heads.Named ∧ heads.element = call := by
  have accepts (text : String) : TextKind.name.accepts (.text text) = isName text.toList ∧
      TextKind.nickname.accepts (.text text) = isName text.toList := ⟨rfl, rfl⟩
  simp only [make, bind_eq_ok, pure_eq_ok, checkedAll_texts_ok_iff, accepts]
  constructor
  · rintro ⟨_, ⟨names, rfl⟩, _, ⟨nickname, rfl⟩, rfl⟩
    exact ⟨⟨names, by simpa using nickname⟩, rfl⟩
  · rintro ⟨named, rfl⟩
    exact ⟨_, ⟨named.names, rfl⟩, _, ⟨by simpa using named.nickname, rfl⟩, rfl⟩

/-! ## The line of a call -/

def Named.line (named : heads.Named) : CallLine where
  name := heads.name
  others := heads.others
  nickname := heads.nickname.map fun given => ([' '], given)
  space := []
  named := named.names
  quoted := by
    intro gap given nickname
    obtain ⟨name, found, same⟩ := Option.map_eq_some_iff.mp nickname
    cases same
    exact ⟨by simp, List.forall_mem_singleton.mpr rfl, named.nickname given found⟩
  blank := CallLine.blank_nil

theorem Named.tidy (named : heads.Named) : named.line.Tidy where
  space := rfl
  gap := by
    intro given member
    obtain ⟨name, -, rfl⟩ := Option.map_eq_some_iff.mp member
    rfl

theorem Named.element_line (named : heads.Named) : named.line.element = heads.element := by
  have nickname : named.line.nickname.map (·.2) = heads.nickname := by
    simp [line, Function.comp_def]
  rw [CallHeads.element, ← nickname, CallLine.element, Option.toList_map, List.map_map]
  rfl

theorem toList_intercalate_slash (name : String) (others : List String) :
    ("/".intercalate (name :: others)).toList =
      name.toList ++ others.flatMap fun other => '/' :: other.toList := by
  induction others generalizing name with
  | nil => simp
  | cons other others ih =>
    rw [String.intercalate_cons_cons, String.toList_append, ih]
    simp

theorem Named.text_line (named : heads.Named) : named.line.text = heads.text := by
  rw [← String.toList_inj, CallLine.text, String.toList_ofList, CallLine.chars, CallHeads.text,
    String.toList_append, String.toList_append, toList_intercalate_slash]
  cases nickname : heads.nickname <;> simp [line, CallLine.quotation, nickname]

theorem isSpelled_element (heads : CallHeads) : heads.element.isSpelled := by
  refine isSpelled_plain rfl (List.forall_mem_append.mpr ⟨?_, ?_⟩)
  · intro child member
    obtain ⟨name, -, rfl⟩ := List.mem_map.mp member
    rfl
  · intro child member
    obtain ⟨given, -, rfl⟩ := List.mem_map.mp member
    rfl

theorem forget_element (heads : CallHeads) : heads.element.forgetOrigins = heads.element := by
  rw [element, forgetOrigins_plain, List.map_append, List.map_map, List.map_map]
  rfl

theorem Named.write_element (named : heads.Named) : heads.element.write = .ok heads.text := by
  rw [write_of_isSpelled heads.isSpelled_element, ← named.element_line,
    named.tidy.written_element, ← named.text_line, CallLine.text]

theorem Named.read_line (named : heads.Named) (keep : Bool) :
    ∃ score, readAs .part keep heads.text = .ok score ∧ score.same heads.score := by
  obtain ⟨noPrelude, same⟩ := document_of_call named.line false
  obtain ⟨instruments, built, alike⟩ := partElements_of_matches same (by simp) keep
  obtain ⟨instrument, rfl, here⟩ := List.map_eq_singleton_iff.mp alike
  have whole : build .part named.line.text = .ok (plain .score [instrument]) :=
    Document.partElement_ok_iff.mpr ⟨instrument, built, by rw [noPrelude]; rfl, rfl⟩
  obtain ⟨score, read, forgotten⟩ := exists_readAs whole keep
  refine ⟨score, named.text_line ▸ read, same_of_forgetOrigins ?_⟩
  rw [forgotten, CallHeads.score, ← named.element_line, forgetOrigins_plain, forgetOrigins_plain,
    List.map_singleton, here]
  rfl

theorem isName_of_mem_line {line : CallLine} {kind : TextKind} {text : String}
    (member : .text kind (.text text) ∈ line.element.children) : isName text.toList := by
  rcases List.mem_append.mp member with name | nickname
  · obtain ⟨given, within, same⟩ := List.mem_map.mp name
    cases same
    exact line.named text within
  · obtain ⟨⟨gap, given⟩, within, same⟩ := List.mem_map.mp nickname
    cases same
    exact (line.quoted gap given (Option.mem_toList.mp within)).2.2

theorem named_of_same {keep : Bool} {text : String} {score : Element}
    (read : readAs .part keep text = .ok score) (same : score.same heads.score) :
    heads.Named := by
  obtain ⟨built, whole, -⟩ := readAs_ok_iff.mp read
  obtain ⟨instrument, parts, -, rfl⟩ := Document.partElement_ok_iff.mp whole
  obtain ⟨line, events, -, -, here⟩ :=
    rewritten_of_parts (read_parts false text) parts instrument (List.mem_singleton_self _)
  have alike := forgetOrigins_of_same (isSpelled_of_readAs read) same
  simp only [forgetOrigins_readAs read whole, CallHeads.score, forgetOrigins_plain, List.map_cons,
    List.map_nil, here, forget_element] at alike
  have call : line.element = heads.element := by
    injection alike with _ _ instruments
    injection instruments with instrument
    injection instrument with _ _ children
    injection children
  constructor
  · intro name member
    have within : .text .name (.text name) ∈ line.element.children := by
      rw [call]
      exact List.mem_append_left _ (List.mem_map_of_mem member)
    exact isName_of_mem_line within
  · intro given member
    have within : .text .nickname (.text given) ∈ line.element.children := by
      rw [call]
      exact List.mem_append_right _ (List.mem_map_of_mem (Option.mem_toList.mpr member))
    exact isName_of_mem_line within

/-! ## The claim of both -/

def callsIn (score : Element) : List Element :=
  score.children.flatMap (·.childrenOf (.plain .instrumentCall))

theorem write_callsIn_forgetOrigins (score : Element) :
    (callsIn score.forgetOrigins).map write = (callsIn score).map write := by
  rw [callsIn, callsIn, children_forgetOrigins, List.flatMap_map, List.map_flatMap,
    List.map_flatMap]
  refine List.flatMap_congr fun instrument _ => ?_
  rw [childrenOf_forgetOrigins, List.map_map]
  exact List.map_congr_left fun call _ => write_forgetOrigins call

/-- The constructors accept the heads of a call if and only if its line is read as a score of just
this call. Then the line is what is written of the call, as it was made and as it is read. -/
theorem make_iff_read (heads : CallHeads) (keep : Bool) :
    ((∃ call, heads.make = .ok call) ↔
      ∃ score, readAs .part keep heads.text = .ok score ∧ score.same heads.score) ∧
    ∀ call, heads.make = .ok call → call = heads.element ∧ call.write = .ok heads.text ∧
      ∃ score, readAs .part keep heads.text = .ok score ∧
        (callsIn score).map write = [.ok heads.text] := by
  constructor
  · constructor
    · rintro ⟨call, made⟩
      exact (make_ok_iff.mp made).1.read_line keep
    · rintro ⟨score, read, same⟩
      exact ⟨_, make_ok_iff.mpr ⟨named_of_same read same, rfl⟩⟩
  · intro call made
    obtain ⟨named, rfl⟩ := make_ok_iff.mp made
    obtain ⟨score, read, same⟩ := named.read_line keep
    refine ⟨rfl, named.write_element, score, read, ?_⟩
    have alike := forgetOrigins_of_same (isSpelled_of_readAs read) same
    rw [← write_callsIn_forgetOrigins, alike, write_callsIn_forgetOrigins]
    exact congrArg (fun text => [text]) named.write_element

def duet : CallHeads := { name := "piano", others := ["cello"], nickname := some "both" }

theorem duet_make_and_read : ∃ call score, duet.make = .ok call ∧
    call.write = .ok "piano/cello \"both\":" ∧
      readAs .part true "piano/cello \"both\":" = .ok score ∧ score.same duet.score := by
  have text : duet.text = "piano/cello \"both\":" := by decide
  have makes : (duet.make.toOption).isSome := by decide
  obtain ⟨call, made⟩ := Option.isSome_iff_exists.mp makes
  rw [toOption_eq_some] at made
  have readable := (make_iff_read duet true).1.mp ⟨call, made⟩
  have written := ((make_iff_read duet true).2 call made).2.1
  rw [text] at readable written
  obtain ⟨score, read, same⟩ := readable
  exact ⟨call, score, made, written, read, same⟩

end CallHeads

end Partbook
