import Partbook.Proofs.Composition
import Partbook.Proofs.Source.Calls
import Partbook.Proofs.Writing.Music

namespace Partbook

open Text Source Element

namespace Source

structure CallLine.Tidy (line : CallLine) : Prop where
  space : line.space = []
  gap : ∀ given ∈ line.nickname, given.1 = [' ']

def CallLine.tidied (line : CallLine) : CallLine where
  name := line.name
  others := line.others
  nickname := line.nickname.map fun given => ([' '], given.2)
  space := []
  named := line.named
  quoted := by
    intro gap given nickname
    obtain ⟨⟨before, name⟩, found, same⟩ := Option.map_eq_some_iff.mp nickname
    cases same
    exact ⟨by simp, List.forall_mem_singleton.mpr rfl, (line.quoted before name found).2.2⟩
  blank := blank_nil

theorem CallLine.tidy_tidied (line : CallLine) : line.tidied.Tidy where
  space := rfl
  gap := by
    intro given member
    obtain ⟨before, -, rfl⟩ := Option.map_eq_some_iff.mp member
    rfl

theorem exists_tidy {cursor after : Cursor} {call : Call}
    (read : cursor.call? = some (call, after))
    (valid : ∀ text, call.quotation ≠ some (.invalid text)) :
    ∃ line : CallLine, line.Tidy ∧
      call.names.map Lexeme.text = line.name :: line.others ∧
      call.nickname?.map Lexeme.text = line.nickname.map (·.2) := by
  obtain ⟨line, -, names, nickname⟩ := Cursor.call?_exact read valid
  refine ⟨line.tidied, line.tidy_tidied, names, ?_⟩
  rw [nickname, CallLine.tidied, Option.map_map]
  rfl

theorem gap_name (name : String) :
    (Label.plain .instrumentCall).gap (.text .name (.text name)) = "/" := by
  simp [Label.gap, Label.kind, Element.kind, Element.text, label]

theorem gap_nickname (name : String) :
    (Label.plain .instrumentCall).gap (.text .nickname (.text name)) = " " := by
  simp [Label.gap, Label.kind, Element.kind, Element.text, label]

theorem written_names (others : List String) (elements : List Element) :
    writtenAll (.plain .instrumentCall) false
        (others.map (fun name => Element.text .name (.text name)) ++ elements) =
      others.flatMap (fun other => '/' :: other.toList) ++
        writtenAll (.plain .instrumentCall) false elements := by
  induction others with
  | nil => rfl
  | cons other others ih =>
    rw [List.map_cons, List.cons_append, writtenAll, ih, List.flatMap_cons,
      written_text (by decide), gap_name, List.append_assoc]
    rfl

theorem CallLine.Tidy.written_nickname {line : CallLine} (tidy : line.Tidy) :
    writtenAll (.plain .instrumentCall) false
        (line.nickname.toList.map fun given => Element.text .nickname (.text given.2)) =
      line.quotation := by
  unfold CallLine.quotation
  cases nickname : line.nickname with
  | none => rfl
  | some found =>
    obtain ⟨gap, given⟩ := found
    obtain rfl : gap = [' '] := tidy.gap _ nickname
    have quoted : (Element.text .nickname (.text given)).written =
        '"' :: (given.toList ++ ['"']) := by
      have head : (Label.text .nickname (.text given)).headChars =
          '"' :: (given.toList ++ ['"']) := by
        simp [Label.headChars, Label.headText, Datum.bare]
      rw [Element.text, written, head]
      simp [writtenAll, Label.tailText]
    rw [Option.toList_some, List.map_singleton, writtenAll, gap_nickname, quoted]
    simp [writtenAll]

theorem CallLine.Tidy.written_element {line : CallLine} (tidy : line.Tidy) :
    line.element.written = line.chars := by
  rw [CallLine.element, List.map_cons, List.cons_append, written_plain, writtenAll_cons,
    written_text (by decide), written_names, tidy.written_nickname, CallLine.chars, tidy.space]
  simp [Label.headChars, Label.headText, PlainKind.sign?, Label.tailText]

end Source

end Partbook
