import Partbook.Proofs.Grammar.Soundness
import Mathlib.Logic.Relation

/-!
A text that is cut short. What the grammar says of the front of a text holds as well where less
follows, or nothing: an event looks ahead only to see that none of its characters comes next, and
there is none at the end of a text.
-/
namespace Partbook.Grammar

open Text Source Element

variable {text rest kept more : List Char}

theorem Apart.cut {p : Char → Bool} (apart : Apart p (kept ++ more)) : Apart p kept := by
  intro c first
  exact apart c (List.mem_head?_append_of_mem_head? first)

theorem Digits.cut {digits : List Char} (number : Digits digits (kept ++ more)) :
    Digits digits kept :=
  ⟨number.nonempty, number.decimal, number.whole.cut⟩

theorem Word.cut {c : Char} {chars : List Char} (word : Word c chars (kept ++ more)) :
    Word c chars kept :=
  ⟨word.letter, word.chars, word.whole.cut⟩

theorem Gap.cut (gap : Gap text (kept ++ more)) :
    ∃ start, text = start ++ more ∧ Gap start kept := by
  generalize whole : kept ++ more = rest at gap
  cases gap with
  | @blank c rest blank => exact ⟨c :: kept, by simp [← whole], .blank blank⟩
  | @comment body rest inside ends =>
    refine ⟨'#' :: (body ++ kept), by simp [← whole], .comment inside fun c first => ?_⟩
    exact ends c (whole ▸ List.mem_head?_append_of_mem_head? first)

theorem Marks.cut {marks : List Element} (said : Marks text marks (kept ++ more)) :
    ∃ start, text = start ++ more ∧ Marks start marks kept := by
  generalize whole : kept ++ more = rest at said
  induction said with
  | @done rest noLength noTie =>
    subst whole
    refine ⟨kept, rfl, .done noLength.cut fun later tilde => ?_⟩
    exact (noTie (later ++ more) (by rw [tilde, List.cons_append])).cut
  | @length digits dots rest later marks number dotted apart said ih =>
    obtain ⟨start, rfl, cut⟩ := ih whole
    rw [← List.append_assoc] at number
    exact ⟨digits ++ (dots ++ start), by simp, .length number.cut dotted apart.cut cut⟩
  | @tie rest later marks number said ih =>
    obtain ⟨start, rfl, cut⟩ := ih whole
    refine ⟨'~' :: start, rfl, .tie (fun apart => number ?_) cut⟩
    -- the number behind the tie is not cut off, for it is part of the marks
    cases start with
    | cons c start => exact fun a first => apart a first
    | nil =>
      generalize none : ([] : List Char) = nothing at cut
      cases cut with
      | done =>
        subst none
        cases said with
        | done noLength noTie => exact noLength
      | length number => simp [number.nonempty] at none
      | tie => cases none

theorem Lasts.cut {duration : List Element} (lasts : Lasts text duration (kept ++ more)) :
    ∃ start, text = start ++ more ∧ Lasts start duration kept := by
  generalize whole : kept ++ more = rest at lasts
  cases lasts with
  | unsaid => exact ⟨kept, whole.symm, .unsaid⟩
  | said nonempty said =>
    subst whole
    obtain ⟨start, same, cut⟩ := said.cut
    exact ⟨start, same, .said nonempty cut⟩
  | slurred said =>
    rw [← whole, ← List.cons_append] at said
    obtain ⟨start, same, cut⟩ := said.cut
    exact ⟨start, same, .slurred cut⟩

/-- The character that ends the values has to be kept. -/
theorem Values.cut {values : List Element} (valued : Values text values (kept ++ more))
    (nonempty : kept ≠ []) : ∃ start, text = start ++ more ∧ Values start values kept := by
  generalize whole : kept ++ more = rest at valued
  induction valued with
  | @done c rest ends =>
    obtain ⟨first, kept, rfl⟩ := List.exists_cons_of_ne_nil nonempty
    cases whole
    exact ⟨c :: kept, rfl, .done ends⟩
  | gap gap valued ih =>
    obtain ⟨start, rfl, cut⟩ := ih whole
    obtain ⟨front, same, gap⟩ := gap.cut
    exact ⟨front, same, .gap gap cut⟩
  | @number digits rest later values number valued ih =>
    obtain ⟨start, rfl, cut⟩ := ih whole
    exact ⟨digits ++ start, by simp, .number number.cut cut⟩
  | @word c chars rest later values word valued ih =>
    obtain ⟨start, rfl, cut⟩ := ih whole
    exact ⟨c :: (chars ++ start), by simp, .word word.cut cut⟩

theorem Change.cut {change : Element} (changed : Change text change (kept ++ more))
    (nonempty : kept ≠ []) : ∃ start, text = start ++ more ∧ Change start change kept := by
  generalize whole : kept ++ more = rest at changed
  cases changed with
  | @here c chars rest later values named unmarked valued =>
    subst whole
    obtain ⟨start, rfl, cut⟩ := valued.cut nonempty
    exact ⟨c :: (chars ++ start), by simp, .here named.cut unmarked.cut cut⟩
  | @everywhere c chars rest later values named valued =>
    subst whole
    obtain ⟨start, rfl, cut⟩ := valued.cut nonempty
    rw [← List.cons_append] at named
    exact ⟨c :: (chars ++ '!' :: start), by simp, .everywhere named.cut cut⟩

theorem Changes.cut {changes : List Element} (closed : Changes text changes (kept ++ more)) :
    ∃ start, text = start ++ more ∧ Changes start changes kept := by
  generalize whole : kept ++ more = rest at closed
  induction closed with
  | close => exact ⟨')' :: kept, by simp [← whole], .close⟩
  | gap gap closed ih =>
    obtain ⟨start, rfl, cut⟩ := ih whole
    obtain ⟨front, same, gap⟩ := gap.cut
    exact ⟨front, same, .gap gap cut⟩
  | comma closed ih =>
    obtain ⟨start, rfl, cut⟩ := ih whole
    exact ⟨',' :: start, rfl, .comma cut⟩
  | change first closed ih =>
    obtain ⟨start, rfl, cut⟩ := ih whole
    obtain ⟨front, same, first⟩ := first.cut cut.ne_nil
    exact ⟨front, same, .change first cut⟩

theorem Event.cut {tree : Element} (event : Event text tree (kept ++ more)) :
    ∃ start, text = start ++ more ∧ Event start tree kept := by
  generalize whole : kept ++ more = rest at event
  cases event with
  | @note c accidentals rest later duration pitch signs lasts =>
    subst whole
    obtain ⟨start, rfl, cut⟩ := lasts.cut
    exact ⟨c :: (accidentals ++ start), by simp, .note pitch signs cut⟩
  | @rest rest later duration alone lasts =>
    subst whole
    obtain ⟨start, rfl, cut⟩ := lasts.cut
    exact ⟨'r' :: start, rfl, .rest alone.cut cut⟩
  | @octaveSet digits rest nonempty decimal =>
    exact ⟨'o' :: (digits ++ kept), by simp [← whole], .octaveSet nonempty decimal⟩
  | @sign c kind rest sign => exact ⟨c :: kept, by simp [← whole], .sign sign⟩
  | changes closed =>
    subst whole
    obtain ⟨start, rfl, cut⟩ := closed.cut
    exact ⟨'(' :: start, rfl, .changes cut⟩

/-- Events, chord separators and gaps in any order, up to `rest`. -/
inductive Strung : List Char → List Token → List Char → Prop
  | done (rest : List Char) : Strung rest [] rest
  | gap {text middle rest : List Char} {tokens : List Token} (gap : Gap text middle)
      (later : Strung middle tokens rest) : Strung text tokens rest
  | event {text middle rest : List Char} {tree : Element} {tokens : List Token}
      (event : Event text tree middle) (later : Strung middle tokens rest) :
      Strung text (.event tree :: tokens) rest
  | separator {text rest : List Char} {tokens : List Token} (later : Strung text tokens rest) :
      Strung ('/' :: text) (.separator :: tokens) rest

namespace Strung

variable {middle : List Char} {tokens others : List Token}

theorem trans (strung : Strung text tokens middle) (later : Strung middle others rest) :
    Strung text (tokens ++ others) rest := by
  induction strung with
  | done rest => exact later
  | gap gap strung ih => exact .gap gap (ih later)
  | event event strung ih => exact .event event (ih later)
  | separator strung ih => exact .separator (ih later)

theorem gaps (gaps : Relation.ReflTransGen Gap text middle) (later : Strung middle tokens rest) :
    Strung text tokens rest := by
  induction gaps using Relation.ReflTransGen.head_induction_on with
  | refl => exact later
  | head first gaps ih => exact .gap first ih

theorem lexed (strung : Strung text tokens []) : Lexed text tokens := by
  generalize none : [] = rest at strung
  induction strung with
  | done rest => exact none ▸ .done
  | gap gap strung ih => exact .gap gap (ih none)
  | event event strung ih => exact .event event (ih none)
  | separator strung ih => exact .separator (ih none)

theorem cut (strung : Strung text tokens (kept ++ more)) :
    ∃ start, text = start ++ more ∧ Strung start tokens kept := by
  generalize whole : kept ++ more = rest at strung
  induction strung with
  | done rest => exact ⟨kept, whole.symm, .done kept⟩
  | gap gap strung ih =>
    obtain ⟨start, rfl, cut⟩ := ih whole
    obtain ⟨front, same, gap⟩ := gap.cut
    exact ⟨front, same, .gap gap cut⟩
  | event event strung ih =>
    obtain ⟨start, rfl, cut⟩ := ih whole
    obtain ⟨front, same, event⟩ := event.cut
    exact ⟨front, same, .event event cut⟩
  | separator strung ih =>
    obtain ⟨start, rfl, cut⟩ := ih whole
    exact ⟨'/' :: start, rfl, .separator cut⟩

theorem alone (strung : Strung text tokens rest) :
    ∃ taken, text = taken ++ rest ∧ Lexed taken tokens := by
  rw [← List.nil_append rest] at strung
  obtain ⟨taken, same, cut⟩ := strung.cut
  exact ⟨taken, same, cut.lexed⟩

end Strung

end Partbook.Grammar
