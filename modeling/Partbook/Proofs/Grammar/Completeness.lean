import Partbook.Proofs.Grammar.Soundness

/-!
What the grammar has is read. The readers take as much as they can, and so does each reading of a
text as music: what follows an item begins with nothing that the item could go on with.
-/
namespace Partbook.Grammar

open Text Source Element Cursor

/-! ## Characters -/

def extends? (c : Char) : Bool := isDecimal c || isAccidental c || c == '~' || c == '.'

theorem extends?_eq_false {c : Char} : extends? c = false ↔
    isDecimal c = false ∧ isAccidental c = false ∧ (c == '~') = false ∧ (c == '.') = false := by
  simp only [extends?, Bool.or_eq_false_iff, and_assoc]

/-- Nothing comes first that an item could go on with. -/
abbrev Clear (text : List Char) : Prop := Apart extends? text

-- one evaluation of the digit table for all the letters
theorem not_extends_letterCodes : ∀ code ∈ List.range' 65 26 ++ List.range' 97 26,
    extends? (Char.ofNat code) = false := by
  decide +kernel

theorem not_extends_of_starter : ∀ c ∈ ['>', '<', '|', '/', '(', '#'], extends? c = false := by
  have none : ['>', '<', '|', '/', '(', '#'].all (fun c => !extends? c) := by decide
  simpa only [List.all_eq_true, Bool.not_eq_true'] using none

theorem punctuation : ∀ c ∈ [',', ')', '(', '!', '~', '.', ' '],
    isDecimal c = false ∧ isLetter c = false ∧ isWordChar c = false := by
  have none : [',', ')', '(', '!', '~', '.', ' '].all
      (fun c => !isDecimal c && (!isLetter c && !isWordChar c)) := by decide +kernel
  simpa only [List.all_eq_true, Bool.and_eq_true, Bool.not_eq_true'] using none

theorem not_extends_of_isLetter {c : Char} (letter : isLetter c) : extends? c = false := by
  simp only [isLetter, Bool.or_eq_true, Bool.and_eq_true, decide_eq_true_eq, Char.le_def,
    UInt32.le_iff_toNat_le] at letter
  have code : c.toNat ∈ List.range' 65 26 ++ List.range' 97 26 := by
    rw [List.mem_append, List.mem_range'_1, List.mem_range'_1]
    rcases letter with ⟨low, high⟩ | ⟨low, high⟩
    · have low' : 97 ≤ c.toNat := low
      have high' : c.toNat ≤ 122 := high
      omega
    · have low' : 65 ≤ c.toNat := low
      have high' : c.toNat ≤ 90 := high
      omega
  simpa using not_extends_letterCodes c.toNat code

theorem isDecimal_of_isLetter {c : Char} (letter : isLetter c) : isDecimal c = false :=
  (extends?_eq_false.mp (not_extends_of_isLetter letter)).1

theorem not_extends_of_blank {c : Char} (blank : isBlank c) : extends? c = false := by
  have other := isNameChar_of_isBlank blank
  simp only [isNameChar, isWord, Bool.or_eq_false_iff] at other
  have signs : c ≠ '~' ∧ c ≠ '.' := by
    constructor <;> (rintro rfl; exact absurd blank (by decide))
  simp [extends?, isAccidental, other, signs]

theorem not_blank_of_wordChar {c : Char} (word : isWordChar c) : isBlank c = false := by
  apply Bool.eq_false_iff.mpr
  intro blank
  rw [isWordChar_of_isNameChar (isNameChar_of_isBlank blank)] at word
  cases word

theorem isWordChar_of_isDecimal {c : Char} (decimal : isDecimal c) : isWordChar c := by
  simp [isWordChar, isWord_of_isDecimal decimal]

theorem clear_of_lexed {text : List Char} {tokens : List Token} (lexed : Lexed text tokens) :
    Clear text := by
  cases lexed with
  | done => nofun
  | gap gap more =>
    rintro _ first
    cases gap with
    | blank blank =>
      cases first
      exact not_extends_of_blank blank
    | comment inside ends =>
      cases first
      exact not_extends_of_starter _ (by simp)
  | separator more =>
    rintro _ ⟨⟩
    exact not_extends_of_starter _ (by simp)
  | event event more =>
    rintro _ first
    cases event with
    | note pitch signs lasts =>
      cases first
      exact not_extends_of_isLetter (isLetter_of_isPitch pitch)
    | rest alone lasts | octaveSet nonempty decimal =>
      cases first
      exact not_extends_of_isLetter rfl
    | changes closed =>
      cases first
      exact not_extends_of_starter _ (by simp)
    | sign sign =>
      cases first
      simp only [signs, List.mem_cons, Prod.mk.injEq, List.not_mem_nil, or_false] at sign
      rcases sign with ⟨rfl, -⟩ | ⟨rfl, -⟩ | ⟨rfl, -⟩ <;> exact not_extends_of_starter _ (by simp)

namespace Clear

variable {text : List Char}

theorem decimal (clear : Clear text) : Apart isDecimal text :=
  fun c first => (extends?_eq_false.mp (clear c first)).1

theorem accidental (clear : Clear text) : Apart isAccidental text :=
  fun c first => (extends?_eq_false.mp (clear c first)).2.1

theorem tilde (clear : Clear text) : Apart (· == '~') text :=
  fun c first => (extends?_eq_false.mp (clear c first)).2.2.1

theorem dot (clear : Clear text) : Apart (· == '.') text :=
  fun c first => (extends?_eq_false.mp (clear c first)).2.2.2

end Clear

/-! ## Runs and durations -/

theorem run?_complete {p : Char → Bool} {chars rest : List Char} (nonempty : chars ≠ [])
    (all : ∀ c ∈ chars, p c) (whole : Apart p rest) (pos : Nat) :
    (⟨pos, chars ++ rest⟩ : Cursor).run? p =
      some (⟨pos, chars⟩, ⟨pos + chars.length, rest⟩) := by
  rw [run?, run_until all whole, takeWhile_until all whole, if_neg nonempty]

theorem next?_complete {p : Char → Bool} {c : Char} (holds : p c) (rest : List Char) (pos : Nat) :
    (⟨pos, c :: rest⟩ : Cursor).next? p = some (⟨pos, [c]⟩, ⟨pos + 1, rest⟩) := by
  simp [next?, holds, cut]

theorem word?_complete {c : Char} {chars rest : List Char} (word : Word c chars rest) (pos : Nat) :
    (⟨pos, c :: (chars ++ rest)⟩ : Cursor).word? =
      some (⟨pos, c :: chars⟩, ⟨pos + (c :: chars).length, rest⟩) := by
  simp [word?, word.letter, takeWhile_until word.chars word.whole,
    dropWhile_until word.chars word.whole, cut]

theorem marks_complete {text rest : List Char} {marks : List Element}
    (said : Marks text marks rest) (pos : Nat) :
    ((⟨pos, text⟩ : Cursor).many lengthMark?).1.map (fun mark => mark.element.forgetOrigins) =
        marks ∧
      ((⟨pos, text⟩ : Cursor).many lengthMark?).2.rest = rest := by
  induction said generalizing pos with
  | done noLength noTie =>
    rw [many_of_none (lengthMark?_eq_none.mpr ⟨noLength, noTie⟩)]
    exact ⟨rfl, rfl⟩
  | @length digits dots rest later marks number dotted whole more ih =>
    have isDot : ∀ c ∈ dots, (c == '.') = true := fun c member => by simp [dotted c member]
    have digitsRead := run?_complete number.nonempty number.decimal number.whole pos
    obtain ⟨mark, behind, read, same⟩ : ∃ mark behind,
        (⟨pos, digits ++ (dots ++ rest)⟩ : Cursor).lengthMark? = some (mark, ⟨behind, rest⟩) ∧
          mark.element.forgetOrigins = noteLength digits dots := by
      unfold lengthMark?
      rw [digitsRead]
      by_cases none : dots = []
      · subst none
        have noDots : (⟨pos + digits.length, [] ++ rest⟩ : Cursor).run? (· == '.') = Option.none :=
          run?_eq_none.mpr whole
        simp only [noDots]
        exact ⟨_, _, rfl, rfl⟩
      · simp only [run?_complete none isDot whole]
        exact ⟨_, _, rfl, by simp only [noteLength, if_neg none]; rfl⟩
    obtain ⟨texts, remaining⟩ := ih behind
    rw [many_of_some consuming_lengthMark? read]
    exact ⟨by rw [List.map_cons, same, texts], remaining⟩
  | @tie rest later marks number more ih =>
    have read : (⟨pos, '~' :: rest⟩ : Cursor).lengthMark? =
        some (.tie ⟨pos, ['~']⟩, ⟨pos + 1, rest⟩) := by
      have noDigit : (⟨pos, '~' :: rest⟩ : Cursor).run? isDecimal = none :=
        run?_eq_none.mpr (by rintro _ ⟨⟩; rfl)
      have tied : ((⟨pos + 1, rest⟩ : Cursor).next? isDecimal).isSome := by
        rw [Option.isSome_iff_ne_none, ne_eq, next?_eq_none]
        exact number
      have tilde := @next?_complete (· == '~') '~' rfl rest pos
      simp only [lengthMark?, noDigit, tilde, Option.bind_eq_bind, Option.bind_some, tied, if_true]
      rfl
    obtain ⟨texts, remaining⟩ := ih (pos + 1)
    rw [many_of_some consuming_lengthMark? read]
    exact ⟨by rw [List.map_cons, texts]; rfl, remaining⟩

theorem Marks.begins {text rest : List Char} {marks : List Element} (said : Marks text marks rest)
    (goesOn : marks ≠ [] ∨ rest.head? = some '~') :
    ∃ c ∈ text.head?, isDecimal c || c == '~' := by
  cases said with
  | done noLength noTie =>
    exact ⟨'~', goesOn.resolve_left (by simp), by simp⟩
  | @length digits dots rest' later marks number dotted whole more =>
    obtain ⟨c, more, rfl⟩ := List.exists_cons_of_ne_nil number.nonempty
    exact ⟨c, rfl, by simp [number.decimal c]⟩
  | tie number more => exact ⟨'~', rfl, by simp⟩

theorem duration?_complete {text rest : List Char} {duration : List Element}
    (lasts : Lasts text duration rest) (clear : Clear rest) (pos : Nat) :
    (durationElements (⟨pos, text⟩ : Cursor).duration?.1).map forgetOrigins = duration ∧
      (⟨pos, text⟩ : Cursor).duration?.2.rest = rest := by
  have said {marks : List Element} {behind : List Char} (said : Marks text marks behind)
      (goesOn : marks ≠ [] ∨ behind.head? = some '~') :
      (⟨pos, text⟩ : Cursor).duration? =
        (some (⟨pos, text⟩ : Cursor).duration.1, (⟨pos, text⟩ : Cursor).duration.2) := by
    rw [duration?, if_pos (isSome_next?.mpr (said.begins goesOn))]
  cases lasts with
  | unsaid =>
    have silent : (⟨pos, text⟩ : Cursor).next? (fun c => isDecimal c || c == '~') = none :=
      next?_eq_none.mpr fun c first => by simp [clear.decimal c first, clear.tilde c first]
    rw [duration?, silent]
    exact ⟨rfl, rfl⟩
  | @said _ marks nonempty isSaid =>
    obtain ⟨texts, remaining⟩ := marks_complete isSaid pos
    have noSlur : ((⟨pos, text⟩ : Cursor).many lengthMark?).2.next? (· == '~') = none :=
      next?_eq_none.mpr (remaining ▸ clear.tilde)
    rw [said isSaid (.inl nonempty)]
    simp only [duration, noSlur, durationElements, Option.toList_some, List.map_cons, List.map_nil,
      forget_duration, texts, remaining]
    simp
  | @slurred _ marks isSaid =>
    obtain ⟨texts, remaining⟩ := marks_complete isSaid pos
    rw [said isSaid (.inr rfl)]
    generalize behind : ((⟨pos, text⟩ : Cursor).many lengthMark?).2 = after at remaining
    obtain ⟨pos', rest'⟩ := after
    subst remaining
    have slur := @next?_complete (· == '~') '~' rfl rest pos'
    simp only [duration, behind, slur, durationElements, Option.toList_some, List.map_cons,
      List.map_nil, forget_duration, texts]
    simp

/-! ## Attribute changes -/

theorem skipBlanks_visible {c : Char} (visible : isBlank c = false) (rest : List Char) (pos : Nat) :
    (⟨pos, c :: rest⟩ : Cursor).skipBlanks = ⟨pos, c :: rest⟩ := by
  simp [skipBlanks, run, cut, visible]

theorem skipBlanks_blank {c : Char} (blank : isBlank c) (rest : List Char) (pos : Nat) :
    (⟨pos, c :: rest⟩ : Cursor).skipBlanks = (⟨pos + 1, rest⟩ : Cursor).skipBlanks :=
  @skipBlanks_append [c] rest (by simpa using blank) pos

theorem comment?_complete {body rest : List Char} (inside : ∀ c ∈ body, c ≠ '\n')
    (ends : ∀ c ∈ rest.head?, c = '\n') (pos : Nat) :
    ∃ lexeme after, (⟨pos, '#' :: (body ++ rest)⟩ : Cursor).comment? = some (lexeme, after) ∧
      after.rest = rest := by
  have all : ∀ c ∈ '#' :: body, (c != '\n') = true :=
    List.forall_mem_cons.mpr ⟨rfl, fun c member => by simpa using inside c member⟩
  have stop : ∀ c ∈ rest.head?, (c != '\n') = false := fun c first => by simp [ends c first]
  refine ⟨_, _, rfl, ?_⟩
  show ('#' :: body ++ rest).dropWhile (· != '\n') = rest
  exact dropWhile_until all stop

structure ValuesAt (cursor : Cursor) (values : List Element) (rest : List Char) : Prop where
  built : ∃ read, valueElements (cursor.many valueItem?).1 = .ok read ∧
    read.map forgetOrigins = values
  behind : (cursor.many valueItem?).2.skipBlanks.rest = rest

theorem ValuesAt.congr {cursor other : Cursor} {values : List Element} {rest : List Char}
    (same : cursor.skipBlanks = other.skipBlanks) (valued : ValuesAt other values rest) :
    ValuesAt cursor values rest := by
  obtain ⟨items, after⟩ := many_congr consuming_valueItem?
    (by simp only [valueItem?, same] : cursor.valueItem? = other.valueItem?) same
  exact ⟨items ▸ valued.built, after ▸ valued.behind⟩

theorem ValuesAt.cons {cursor after : Cursor} {item : ValueItem} {values : List Element}
    {rest : List Char} (first : List Element) (read : cursor.valueItem? = some (item, after))
    (adds : ∀ items found, valueElements items = .ok found → ∃ all,
      valueElements (item :: items) = .ok all ∧
        all.map forgetOrigins = first ++ found.map forgetOrigins)
    (more : ValuesAt after values rest) : ValuesAt cursor (first ++ values) rest := by
  obtain ⟨found, built, same⟩ := more.built
  obtain ⟨all, builtAll, sameAll⟩ := adds _ found built
  constructor
  · rw [many_of_some consuming_valueItem? read]
    exact ⟨all, builtAll, by rw [sameAll, same]⟩
  · rw [many_of_some consuming_valueItem? read]
    exact more.behind

theorem valueItem?_end {c : Char} (ends : c = ',' ∨ c = ')') (rest : List Char) (pos : Nat) :
    (⟨pos, c :: rest⟩ : Cursor).valueItem? = none := by
  have visible : isBlank c = false := by rcases ends with rfl | rfl <;> rfl
  have other := punctuation c (by rcases ends with rfl | rfl <;> simp)
  have noNumber : (⟨pos, c :: rest⟩ : Cursor).run? isDecimal = none :=
    run?_eq_none.mpr (by rintro _ ⟨⟩; exact other.1)
  have noWord : (⟨pos, c :: rest⟩ : Cursor).word? = none := by simp [word?, other.2.1]
  have noComment : (⟨pos, c :: rest⟩ : Cursor).comment? = none := by
    rcases ends with rfl | rfl <;> rfl
  have starts : startsValue (c :: rest) = true := by rcases ends with rfl | rfl <;> rfl
  have noJunk : (⟨pos, c :: rest⟩ : Cursor).junk? startsValue = none := by
    simp [junk?, splitAt, starts]
  simp only [valueItem?, skipBlanks_visible visible, noNumber, noWord, noComment, noJunk]
  rfl

theorem values_complete {text rest : List Char} {values : List Element}
    (valued : Values text values rest) (pos : Nat) : ValuesAt ⟨pos, text⟩ values rest := by
  induction valued generalizing pos with
  | @done c rest ends =>
    have visible : isBlank c = false := by rcases ends with rfl | rfl <;> rfl
    constructor
    · rw [many_of_none (valueItem?_end ends rest pos)]
      exact ⟨[], rfl, rfl⟩
    · rw [many_of_none (valueItem?_end ends rest pos), skipBlanks_visible visible]
  | gap gap more ih =>
    cases gap with
    | blank blank => exact (ih (pos + 1)).congr (skipBlanks_blank blank _ pos)
    | @comment body rest inside ends =>
      obtain ⟨lexeme, ⟨pos', rest⟩, comment, rfl⟩ := comment?_complete inside ends pos
      have read : (⟨pos, '#' :: (body ++ rest)⟩ : Cursor).valueItem? =
          some (.comment lexeme, ⟨pos', rest⟩) := by
        have noNumber : (⟨pos, '#' :: (body ++ rest)⟩ : Cursor).run? isDecimal = none :=
          run?_eq_none.mpr (by rintro _ ⟨⟩; rfl)
        have noWord : (⟨pos, '#' :: (body ++ rest)⟩ : Cursor).word? = none := rfl
        simp only [valueItem?, skipBlanks_visible (by rfl : isBlank '#' = false), noNumber, noWord,
          comment]
        rfl
      exact .cons [] read (fun items found built => ⟨found, built, rfl⟩) (ih pos')
  | @number digits rest later values number more ih =>
    have read : (⟨pos, digits ++ rest⟩ : Cursor).valueItem? =
        some (.number ⟨pos, digits⟩, ⟨pos + digits.length, rest⟩) := by
      obtain ⟨c, digits, rfl⟩ := List.exists_cons_of_ne_nil number.nonempty
      have visible := not_blank_of_wordChar (isWordChar_of_isDecimal (number.decimal c (by simp)))
      have all := run?_complete number.nonempty number.decimal number.whole pos
      rw [List.cons_append] at all ⊢
      simp only [valueItem?, skipBlanks_visible visible, all]
      rfl
    refine .cons [leaf .number digits] read (fun items found built => ?_) (ih _)
    exact ⟨_, by rw [valueElements, built]; rfl, rfl⟩
  | @word c chars rest later values word more ih =>
    have read : (⟨pos, c :: (chars ++ rest)⟩ : Cursor).valueItem? =
        some (.word ⟨pos, c :: chars⟩, ⟨pos + (c :: chars).length, rest⟩) := by
      have noNumber : (⟨pos, c :: (chars ++ rest)⟩ : Cursor).run? isDecimal = none :=
        run?_eq_none.mpr (by rintro _ ⟨⟩; exact isDecimal_of_isLetter word.letter)
      simp only [valueItem?, skipBlanks_visible (isBlank_of_isLetter word.letter), noNumber,
        word?_complete word]
      rfl
    refine .cons [leaf .word (c :: chars)] read (fun items found built => ?_) (ih _)
    exact ⟨_, by rw [valueElements, built]; rfl, rfl⟩

structure ChangesAt (cursor : Cursor) (changes : List Element) (rest : List Char) : Prop where
  built : ∃ read, changeElements (cursor.many changeItem?).1 = .ok read ∧
    read.map forgetOrigins = changes
  checked : checkChangeItems (cursor.many changeItem?).1 = .ok ()
  closed : (cursor.many changeItem?).2.skipBlanks.rest = ')' :: rest

theorem ChangesAt.congr {cursor other : Cursor} {changes : List Element} {rest : List Char}
    (same : cursor.skipBlanks = other.skipBlanks) (changed : ChangesAt other changes rest) :
    ChangesAt cursor changes rest := by
  obtain ⟨items, after⟩ := many_congr consuming_changeItem?
    (by simp only [changeItem?, same] : cursor.changeItem? = other.changeItem?) same
  exact ⟨items ▸ changed.built, items ▸ changed.checked, after ▸ changed.closed⟩

theorem ChangesAt.cons {cursor after : Cursor} {item : ChangeItem} {changes : List Element}
    {rest : List Char} (first : List Element)
    (read : cursor.changeItem? = some (item, after)) (valid : ∀ text, item ≠ .invalid text)
    (adds : ∀ items found, changeElements items = .ok found → ∃ all,
      changeElements (item :: items) = .ok all ∧
        all.map forgetOrigins = first ++ found.map forgetOrigins)
    (more : ChangesAt after changes rest) : ChangesAt cursor (first ++ changes) rest := by
  obtain ⟨found, built, same⟩ := more.built
  obtain ⟨all, builtAll, sameAll⟩ := adds _ found built
  constructor
  · rw [many_of_some consuming_changeItem? read]
    exact ⟨all, builtAll, by rw [sameAll, same]⟩
  · rw [many_of_some consuming_changeItem? read]
    cases item with
    | invalid text => exact absurd rfl (valid text)
    | comma text | comment text | change name values => exact more.checked
  · rw [many_of_some consuming_changeItem? read]
    exact more.closed

theorem changeItem?_end (rest : List Char) (pos : Nat) :
    (⟨pos, ')' :: rest⟩ : Cursor).changeItem? = none := by
  have starts : startsChange (')' :: rest) = true := rfl
  have noJunk : (⟨pos, ')' :: rest⟩ : Cursor).junk? startsChange = none := by
    simp [junk?, splitAt, starts]
  simp only [changeItem?, skipBlanks_visible (by rfl : isBlank ')' = false), noJunk]
  rfl

theorem change_complete {text rest : List Char} {change : Element}
    (isChange : Change text change rest) (pos : Nat) :
    ∃ name behind values, (⟨pos, text⟩ : Cursor).attributeName? = some (name, behind) ∧
      ValuesAt behind values rest ∧
      change = .plain .attributeChange (leaf .attributeName name.chars :: values) := by
  cases isChange with
  | @here c chars rest' _ values named unmarked valued =>
    refine ⟨⟨pos, c :: chars⟩, ⟨pos + (c :: chars).length, rest'⟩, values, ?_,
      values_complete valued _, rfl⟩
    have noMark : (⟨pos + (c :: chars).length, rest'⟩ : Cursor).next? (· == '!') = none :=
      next?_eq_none.mpr unmarked
    simp only [attributeName?, word?_complete named, Option.bind_eq_bind, Option.bind_some, noMark]
    rfl
  | @everywhere c chars rest' _ values named valued =>
    refine ⟨⟨pos, c :: (chars ++ ['!'])⟩, ⟨pos + (c :: chars).length + 1, rest'⟩, values, ?_,
      values_complete valued _, rfl⟩
    have mark := @next?_complete (· == '!') '!' rfl rest' (pos + (c :: chars).length)
    simp only [attributeName?, word?_complete named, Option.bind_eq_bind, Option.bind_some, mark]
    rfl

theorem Change.begins {text rest : List Char} {change : Element}
    (isChange : Change text change rest) : ∃ c behind, text = c :: behind ∧ isLetter c := by
  cases isChange with
  | here named unmarked valued => exact ⟨_, _, rfl, named.letter⟩
  | everywhere named valued => exact ⟨_, _, rfl, named.letter⟩

theorem Values.ends {text rest : List Char} {values : List Element}
    (valued : Values text values rest) : ∃ c behind, rest = c :: behind ∧ (c = ',' ∨ c = ')') := by
  induction valued with
  | done ends => exact ⟨_, _, rfl, ends⟩
  | gap gap more ih | number number more ih | word word more ih => exact ih

theorem Change.ends {text rest : List Char} {change : Element}
    (isChange : Change text change rest) :
    ∃ c behind, rest = c :: behind ∧ isBlank c = false := by
  have punctuated {values : List Element} {text : List Char} (valued : Values text values rest) :
      ∃ c behind, rest = c :: behind ∧ isBlank c = false := by
    obtain ⟨c, behind, rfl, rfl | rfl⟩ := valued.ends <;> exact ⟨_, _, rfl, rfl⟩
  cases isChange with
  | here named unmarked valued => exact punctuated valued
  | everywhere named valued => exact punctuated valued

theorem changes_complete {text rest : List Char} {changes : List Element}
    (closed : Changes text changes rest) (pos : Nat) : ChangesAt ⟨pos, text⟩ changes rest := by
  induction closed generalizing pos with
  | @close rest =>
    refine ⟨?_, ?_, ?_⟩
    · rw [many_of_none (changeItem?_end rest pos)]
      exact ⟨[], rfl, rfl⟩
    · rw [many_of_none (changeItem?_end rest pos)]
      rfl
    · rw [many_of_none (changeItem?_end rest pos), skipBlanks_visible (by rfl)]
  | gap gap more ih =>
    cases gap with
    | blank blank => exact (ih (pos + 1)).congr (skipBlanks_blank blank _ pos)
    | @comment body rest inside ends =>
      obtain ⟨lexeme, ⟨pos', rest⟩, comment, rfl⟩ := comment?_complete inside ends pos
      have read : (⟨pos, '#' :: (body ++ rest)⟩ : Cursor).changeItem? =
          some (.comment lexeme, ⟨pos', rest⟩) := by
        simp only [changeItem?, skipBlanks_visible (by rfl : isBlank '#' = false), comment]
        rfl
      exact .cons [] read (by simp) (fun items found built => ⟨found, built, rfl⟩) (ih pos')
  | @comma rest later changes more ih =>
    have read : (⟨pos, ',' :: rest⟩ : Cursor).changeItem? =
        some (.comma ⟨pos, [',']⟩, ⟨pos + 1, rest⟩) := by
      have comma := @next?_complete (· == ',') ',' rfl rest pos
      simp only [changeItem?, skipBlanks_visible (by rfl : isBlank ',' = false), comma]
      rfl
    exact .cons [] read (by simp) (fun items found built => ⟨found, built, rfl⟩) (ih (pos + 1))
  | @change text rest later change changes first more ih =>
    obtain ⟨name, behind, values, named, valued, rfl⟩ := change_complete first pos
    obtain ⟨c, text, rfl, letter⟩ := first.begins
    obtain ⟨c', rest, rfl, visible⟩ := first.ends
    have read : (⟨pos, c :: text⟩ : Cursor).changeItem? =
        some (.change name (behind.many valueItem?).1, (behind.many valueItem?).2) := by
      have noComma : (⟨pos, c :: text⟩ : Cursor).next? (· == ',') = none := by
        refine next?_eq_none.mpr ?_
        rintro _ ⟨⟩
        exact beq_false_of_ne fun same => absurd letter (by rw [same]; decide)
      simp only [changeItem?, skipBlanks_visible (isBlank_of_isLetter letter), noComma, named]
      rfl
    have here : ChangesAt (behind.many valueItem?).2 changes later := by
      have rest := valued.behind
      generalize skipped : (behind.many valueItem?).2.skipBlanks = start at rest
      obtain ⟨pos', rest'⟩ := start
      subst rest
      exact (ih pos').congr (by rw [skipped, skipBlanks_visible visible])
    refine .cons [_] read (by simp) (fun items found built => ?_) here
    obtain ⟨inside, builtValues, same⟩ := valued.built
    refine ⟨_, by rw [changeElements, builtValues, built]; rfl, ?_⟩
    simp only [List.map_cons, forgetOrigins_plain, forget_leaf, same]
    rfl

theorem changes?_complete {text rest : List Char} {changes : List Element}
    (closed : Changes text changes rest) (pos : Nat) :
    ∃ group behind tree, (⟨pos, '(' :: text⟩ : Cursor).changes? = some (group, ⟨behind, rest⟩) ∧
      group.element = .ok tree ∧ tree.forgetOrigins = .plain .attributeChanges changes := by
  obtain ⟨⟨read, built, same⟩, checked, closing⟩ := changes_complete closed (pos + 1)
  generalize skipped : ((⟨pos + 1, text⟩ : Cursor).many changeItem?).2.skipBlanks = start at closing
  obtain ⟨pos', rest'⟩ := start
  subst closing
  have opening := @next?_complete (· == '(') '(' rfl text pos
  have close := @next?_complete (· == ')') ')' rfl rest pos'
  refine ⟨⟨⟨pos, ['(']⟩, ((⟨pos + 1, text⟩ : Cursor).many changeItem?).1, some ⟨pos', [')']⟩⟩,
    pos' + 1, .node (.plain .attributeChanges)
      { head := some ⟨pos, pos + 1⟩, tail := some ⟨pos', pos' + 1⟩ } read, ?_, ?_, ?_⟩
  · simp only [changes?, opening, Option.bind_eq_bind, Option.bind_some, skipped, close]
    rfl
  · simp only [Source.Changes.element, built, checked, bind, Except.bind, pure, Except.pure]
    rfl
  · rw [forgetOrigins_node, same]
    rfl

/-! ## Events -/

theorem accidentals_complete {signs rest : List Char} (all : ∀ c ∈ signs, isAccidental c)
    (whole : Apart isAccidental rest) (pos : Nat) :
    ∃ lexemes behind, (⟨pos, signs ++ rest⟩ : Cursor).many (next? isAccidental) =
        (lexemes, ⟨behind, rest⟩) ∧ lexemes.map Lexeme.chars = signs.map ([·]) := by
  induction signs generalizing pos with
  | nil =>
    have none : (⟨pos, rest⟩ : Cursor).next? isAccidental = none := next?_eq_none.mpr whole
    exact ⟨[], pos, many_of_none none, rfl⟩
  | cons c signs ih =>
    rw [List.forall_mem_cons] at all
    obtain ⟨lexemes, behind, more, texts⟩ := ih all.2 (pos + 1)
    refine ⟨⟨pos, [c]⟩ :: lexemes, behind, ?_, by rw [List.map_cons, texts]; rfl⟩
    rw [List.cons_append, many_of_some (consuming_next? isAccidental)
      (next?_complete all.1 (signs ++ rest) pos), more]

theorem Lasts.apart_accidental {text rest : List Char} {duration : List Element}
    (lasts : Lasts text duration rest) (clear : Clear rest) : Apart isAccidental text := by
  have marked (begins : ∃ c ∈ text.head?, isDecimal c || c == '~') : Apart isAccidental text := by
    obtain ⟨c, first, begins⟩ := begins
    intro c' first'
    obtain rfl : c = c' := Option.some.inj (first.symm.trans first')
    apply Bool.eq_false_iff.mpr
    intro accidental
    simp only [isAccidental, Bool.or_eq_true, beq_iff_eq] at accidental
    rcases accidental with (rfl | rfl) | rfl <;> exact absurd begins (by decide)
  cases lasts with
  | unsaid => exact clear.accidental
  | said nonempty said => exact marked (said.begins (.inl nonempty))
  | slurred said => exact marked (said.begins (.inr rfl))

theorem event_complete {text rest : List Char} {tree : Element} (event : Event text tree rest)
    (clear : Clear rest) (pos : Nat) :
    ∃ item behind read, (⟨pos, text⟩ : Cursor).musicMark? = some (item, ⟨behind, rest⟩) ∧
      item.piece = .ok (.event read) ∧ read.forgetOrigins = tree := by
  cases event with
  | @note c signs rest' _ duration pitch all lasts =>
    obtain ⟨lexemes, behind, accidentals, texts⟩ :=
      accidentals_complete all (lasts.apart_accidental clear) (pos + 1)
    obtain ⟨lasting, remaining⟩ := duration?_complete lasts clear behind
    generalize timed : (⟨behind, rest'⟩ : Cursor).duration? = found at lasting remaining
    obtain ⟨time, ⟨pos', rest⟩⟩ := found
    subst remaining
    have note : (⟨pos, c :: (signs ++ rest')⟩ : Cursor).note? =
        some (.note ⟨pos, [c]⟩ lexemes time, ⟨pos', rest⟩) := by
      simp only [note?, next?_complete pitch, Option.bind_eq_bind, Option.bind_some, accidentals,
        timed]
      rfl
    refine ⟨_, pos', _, by rw [musicMark?, note]; rfl, rfl, ?_⟩
    rw [forget_note _ _ _ rfl texts, lasting]
  | @rest rest' _ duration alone lasts =>
    obtain ⟨lasting, remaining⟩ := duration?_complete lasts clear (pos + 1)
    generalize timed : (⟨pos + 1, rest'⟩ : Cursor).duration? = found at lasting remaining
    obtain ⟨time, ⟨pos', rest⟩⟩ := found
    subst remaining
    have silent : (⟨pos, 'r' :: rest'⟩ : Cursor).rest? =
        some (.rest ⟨pos, ['r']⟩ time, ⟨pos', rest⟩) := by
      have noLetter : (⟨pos + 1, rest'⟩ : Cursor).next? isLetter = none := next?_eq_none.mpr alone
      have letter := @next?_complete (· == 'r') 'r' rfl rest' pos
      simp only [rest?, letter, Option.bind_eq_bind, Option.bind_some, noLetter, timed]
      rfl
    have noNote : (⟨pos, 'r' :: rest'⟩ : Cursor).note? = none := rfl
    refine ⟨_, pos', _, by rw [musicMark?, noNote, silent]; rfl, rfl, ?_⟩
    rw [Lexeme.markElement, forgetOrigins_node, lasting]
    rfl
  | @octaveSet digits _ nonempty decimal =>
    have octave : (⟨pos, 'o' :: (digits ++ rest)⟩ : Cursor).octaveSet? =
        some (.octaveSet ⟨pos, ['o']⟩ ⟨pos + 1, digits⟩, ⟨pos + 1 + digits.length, rest⟩) := by
      have letter := @next?_complete (· == 'o') 'o' rfl (digits ++ rest) pos
      simp only [octaveSet?, letter, Option.bind_eq_bind, Option.bind_some,
        run?_complete nonempty decimal clear.decimal]
      rfl
    have noNote : (⟨pos, 'o' :: (digits ++ rest)⟩ : Cursor).note? = none := rfl
    have noRest : (⟨pos, 'o' :: (digits ++ rest)⟩ : Cursor).rest? = none := rfl
    exact ⟨_, _, _, by rw [musicMark?, noNote, noRest, octave]; rfl, rfl, rfl⟩
  | sign sign =>
    simp only [signs, List.mem_cons, Prod.mk.injEq, List.not_mem_nil, or_false] at sign
    rcases sign with ⟨rfl, rfl⟩ | ⟨rfl, rfl⟩ | ⟨rfl, rfl⟩ <;> exact ⟨_, _, _, rfl, rfl, rfl⟩
  | changes closed =>
    obtain ⟨group, behind, tree, read, built, same⟩ := changes?_complete closed pos
    exact ⟨.changes group, behind, tree, by rw [musicMark?, read]; rfl,
      by rw [MusicItem.piece, built]; rfl, same⟩

/-! ## Music -/

theorem Event.begins {text rest : List Char} {tree : Element} (event : Event text tree rest) :
    ∃ c behind, text = c :: behind ∧ isBlank c = false := by
  cases event with
  | note pitch signs lasts =>
    exact ⟨_, _, rfl, isBlank_of_isLetter (isLetter_of_isPitch pitch)⟩
  | rest alone lasts | octaveSet nonempty decimal | changes closed => exact ⟨_, _, rfl, rfl⟩
  | sign sign =>
    simp only [signs, List.mem_cons, Prod.mk.injEq, List.not_mem_nil, or_false] at sign
    rcases sign with ⟨rfl, -⟩ | ⟨rfl, -⟩ | ⟨rfl, -⟩ <;> exact ⟨_, _, rfl, rfl⟩

def LexesAt (cursor : Cursor) (tokens : List Token) : Prop :=
  ∃ all, pieces (cursor.music fun _ => false).1 = .ok all ∧ all.filterMap tokens? = tokens ∧
    ∀ text, Piece.invalid text ∉ all

theorem LexesAt.cons {c : Char} {text : List Char} {pos : Nat} (visible : isBlank c = false)
    {item : MusicItem} {after : Cursor}
    (read : (⟨pos, c :: text⟩ : Cursor).musicMark? = some (item, after)) {piece : Piece}
    (built : item.piece = .ok piece) (valid : ∀ text, piece ≠ .invalid text) {tokens : List Token}
    (more : LexesAt after tokens) :
    LexesAt ⟨pos, c :: text⟩ ((tokens? piece).toList ++ tokens) := by
  obtain ⟨all, later, same, others⟩ := more
  have first : (⟨pos, c :: text⟩ : Cursor).musicItem? (fun _ => false) = some (item, after) := by
    simp only [musicItem?, skipBlanks_visible visible, read]
    rfl
  refine ⟨piece :: all, ?_, ?_, fun text => ?_⟩
  · rw [music, many_of_some (consuming_musicItem? _) first, pieces, built]
    rw [music] at later
    rw [later]
    rfl
  · rw [List.filterMap_cons, same]
    cases tokens? piece <;> rfl
  · rw [List.mem_cons, not_or]
    exact ⟨fun same => valid text same.symm, others text⟩

theorem music_complete {text : List Char} {tokens : List Token} (lexed : Lexed text tokens)
    (pos : Nat) : LexesAt ⟨pos, text⟩ tokens := by
  induction lexed generalizing pos with
  | done =>
    have none : (⟨pos, []⟩ : Cursor).musicItem? (fun _ => false) = none := rfl
    exact ⟨[], by rw [music, many_of_none none]; rfl, rfl, by simp⟩
  | gap gap more ih =>
    cases gap with
    | blank blank =>
      obtain ⟨all, built, same⟩ := ih (pos + 1)
      obtain ⟨items, -⟩ := @music_congr _ _ (fun _ => false) (skipBlanks_blank blank _ pos)
      exact ⟨all, items ▸ built, same⟩
    | @comment body rest inside ends =>
      obtain ⟨lexeme, ⟨pos', rest⟩, comment, rfl⟩ := comment?_complete inside ends pos
      have read : (⟨pos, '#' :: (body ++ rest)⟩ : Cursor).musicMark? =
          some (.comment lexeme, ⟨pos', rest⟩) := by
        have noNote : (⟨pos, '#' :: (body ++ rest)⟩ : Cursor).note? = none := rfl
        simp only [musicMark?, noNote, comment]
        rfl
      exact LexesAt.cons rfl read rfl (by simp) (ih pos')
  | @event text rest tree tokens event more ih =>
    obtain ⟨item, behind, read, mark, built, rfl⟩ :=
      event_complete event (clear_of_lexed more) pos
    obtain ⟨c, text, rfl, visible⟩ := event.begins
    exact .cons visible mark built (by simp) (ih behind)
  | @separator rest tokens more ih =>
    have read : (⟨pos, '/' :: rest⟩ : Cursor).musicMark? =
        some (.separator ⟨pos, ['/']⟩, ⟨pos + 1, rest⟩) := rfl
    exact LexesAt.cons rfl read rfl (by simp) (ih (pos + 1))

end Partbook.Grammar
