import Partbook.Proofs.Source.Progress

/-!
Lines that are an instrument call and nothing else. What follows such a line does not change how it
is read, and music that is accepted is never taken for one.
-/
namespace Partbook.Source

open Text

/-! ## Characters -/

theorem takeWhile_until {p : Char → Bool} {text more : List Char} (all : ∀ c ∈ text, p c)
    (stop : ∀ c ∈ more.head?, p c = false) : (text ++ more).takeWhile p = text := by
  rw [List.takeWhile_append_of_pos all]
  cases more with
  | nil => simp
  | cons c more => simp [stop c rfl]

theorem dropWhile_until {p : Char → Bool} {text more : List Char} (all : ∀ c ∈ text, p c)
    (stop : ∀ c ∈ more.head?, p c = false) : (text ++ more).dropWhile p = more := by
  rw [List.dropWhile_append_of_pos all]
  cases more with
  | nil => simp
  | cons c more => simp [stop c rfl]

/-! ## Where calls begin -/

/-- A colon or a double quote stands behind the first word and the blanks after it. -/
def Loud (text : List Char) : Prop :=
  ∃ c ∈ ((text.dropWhile isCallChar).dropWhile isBlank).head?, c = ':' ∨ c = '"'

def Soft (text : List Char) : Prop :=
  ∀ c ∈ (text.dropWhile isBlank).head?, c ≠ ':' ∧ c ≠ '"'

theorem loud_of_parts {text word blanks rest : List Char} {c : Char}
    (parts : text = word ++ (blanks ++ c :: rest)) (named : ∀ c ∈ word, isCallChar c)
    (blank : ∀ c ∈ blanks, isBlank c) (loud : c = ':' ∨ c = '"') : Loud text := by
  have visible : isBlank c = false := by rcases loud with rfl | rfl <;> rfl
  have stop : ∀ first ∈ (blanks ++ c :: rest).head?, isCallChar first = false := by
    cases blanks with
    | nil =>
      rintro first ⟨⟩
      rcases loud with rfl | rfl <;> exact isCallChar_of_sign (by simp [signs]) (by decide)
    | cons first blanks =>
      rintro _ ⟨⟩
      exact isCallChar_of_isBlank (blank first List.mem_cons_self)
  rw [Loud, parts, dropWhile_until named stop,
    dropWhile_until blank (by rintro _ ⟨⟩; exact visible)]
  exact ⟨c, rfl, loud⟩

namespace Cursor

variable {cursor after : Cursor}

theorem name?_parts {name : Lexeme} (read : cursor.name? = some (name, after)) :
    ∃ word, cursor.rest = word ++ after.rest ∧ ∀ c ∈ word, isCallChar c := by
  unfold name? at read
  split at read
  · rename_i first second rest parts
    split at read
    · rename_i letters
      rw [Bool.and_eq_true] at letters
      cases read
      refine ⟨first :: second :: rest.takeWhile isNameChar, by simp [parts], ?_⟩
      simp only [List.forall_mem_cons, isCallChar, isNameChar, isWord_of_isLetter letters.1,
        isWord_of_isLetter letters.2, Bool.true_or, true_and]
      intro c member
      have named : isNameChar c := List.mem_takeWhile_imp member
      simpa [isNameChar] using Or.inl named
    · cases read
  · cases read

theorem otherNames_parts (cursor : Cursor) :
    ∃ word, cursor.rest = word ++ (cursor.many otherName?).2.rest ∧ ∀ c ∈ word, isCallChar c := by
  induction cursor using many.induct otherName? with
  | case1 cursor fails =>
    rw [many_of_none fails]
    exact ⟨[], rfl, by simp⟩
  | case2 cursor item after read shorter ih =>
    have unrolled : cursor.many otherName? = (item :: (after.many otherName?).1,
        (after.many otherName?).2) := by
      rw [many, read]
      simp only [shorter, if_true]
    obtain ⟨more, rest, named⟩ := ih
    simp only [otherName?, Option.bind_eq_bind, Option.bind_eq_some_iff] at read
    obtain ⟨⟨slash, behind⟩, first, ⟨name, later⟩, next, same⟩ := read
    cases same
    obtain ⟨word, inside, letters⟩ := name?_parts next
    obtain ⟨c, _, parts, isSlash, same⟩ := next?_eq_some first
    cases same
    rw [unrolled]
    refine ⟨c :: (word ++ more), ?_, ?_⟩
    · rw [parts, List.cons_append, List.append_assoc, ← rest]
      exact congrArg (c :: ·) inside
    · rw [List.forall_mem_cons, List.forall_mem_append]
      exact ⟨by simp [isCallChar, isSlash], letters, named⟩
  | case3 cursor item after read longer =>
    exact absurd (advances_otherName? cursor item after read).2 longer

theorem skipBlanks_parts (cursor : Cursor) :
    ∃ blanks, cursor.rest = blanks ++ cursor.skipBlanks.rest ∧ ∀ c ∈ blanks, isBlank c :=
  ⟨cursor.rest.takeWhile isBlank, List.takeWhile_append_dropWhile.symm,
    fun _ member => List.mem_takeWhile_imp member⟩

theorem visible_skipBlanks (cursor : Cursor) :
    ∀ c ∈ cursor.skipBlanks.rest.head?, isBlank c = false := by
  have stopped := List.head?_dropWhile_not isBlank cursor.rest
  intro c first
  simp only [skipBlanks, run, cut] at first
  simpa [Option.mem_def.mp first] using stopped

theorem skipBlanks_skipBlanks (cursor : Cursor) :
    cursor.skipBlanks.skipBlanks = cursor.skipBlanks := by
  have visible := cursor.visible_skipBlanks
  generalize cursor.skipBlanks = start at visible ⊢
  obtain ⟨pos, rest⟩ := start
  cases rest with
  | nil => rfl
  | cons c rest => simp [skipBlanks, run, cut, visible c rfl]

theorem spacedQuotation?_parts {quotation : Quotation}
    (read : cursor.spacedQuotation? = some (quotation, after)) :
    ∃ blanks rest, cursor.rest = blanks ++ '"' :: rest ∧ ∀ c ∈ blanks, isBlank c := by
  simp only [spacedQuotation?, quotation?, quoted?, Option.bind_eq_bind,
    Option.bind_eq_some_iff] at read
  obtain ⟨⟨lexeme, inside⟩, blanks, _, ⟨⟨opening, behind⟩, opens, -⟩, -⟩ := read
  unfold run? at blanks
  split at blanks
  · cases blanks
  · cases blanks
    obtain ⟨c, rest, parts, isQuote, -⟩ := next?_eq_some opens
    obtain rfl : c = '"' := by simpa using isQuote
    refine ⟨cursor.rest.takeWhile isBlank, rest, ?_, fun c member => List.mem_takeWhile_imp member⟩
    rw [← parts]
    exact List.takeWhile_append_dropWhile.symm

end Cursor

theorem loud_of_startsCall {text : List Char} (starts : startsCall text) : Loud text := by
  obtain ⟨⟨call, after⟩, read⟩ := Option.isSome_iff_exists.mp starts
  simp only [Cursor.call?, Option.bind_eq_bind, Option.bind_eq_some_iff] at read
  obtain ⟨⟨name, rest⟩, named, ⟨colon, later⟩, closes, -⟩ := read
  obtain ⟨word, first, letters⟩ := Cursor.name?_parts named
  obtain ⟨more, others, names⟩ := rest.otherNames_parts
  have parts : text = (word ++ more) ++ (rest.many Cursor.otherName?).2.rest := by
    rw [List.append_assoc, ← others]
    exact first
  have chars := List.forall_mem_append.mpr ⟨letters, names⟩
  split at closes
  · rename_i quotation behind quoted
    obtain ⟨blanks, rest, spaced, blank⟩ := Cursor.spacedQuotation?_parts quoted
    exact loud_of_parts (by rw [parts, spaced]) chars blank (.inr rfl)
  · obtain ⟨c, behind, spaced, isColon, -⟩ := Cursor.next?_eq_some closes
    obtain rfl : c = ':' := by simpa using isColon
    obtain ⟨blanks, skipped, blank⟩ := Cursor.skipBlanks_parts (rest.many Cursor.otherName?).2
    exact loud_of_parts (by rw [parts, skipped]; exact congrArg _ (congrArg _ spaced)) chars blank
      (.inl rfl)

/-! ## Music is no call -/

theorem Tame.behind {before after : List Char} (tame : Tame (before ++ after))
    (plain : '#' ∉ before) : Tame after := by
  intro c member
  apply tame
  rw [List.takeWhile_append_of_pos]
  · exact List.mem_append_right _ member
  · intro other within
    simpa using ne_of_mem_of_not_mem within plain

theorem Tame.head {c : Char} {rest : List Char} (tame : Tame (c :: rest)) : c ≠ ':' ∧ c ≠ '"' := by
  by_cases comment : c = '#'
  · subst comment
    decide
  · exact tame c (by simp [comment])

theorem Tame.soft {text more : List Char} (tame : Tame text) (soft : Soft more) :
    Soft (text ++ more) := by
  intro c first
  have split : text.takeWhile isBlank ++ text.dropWhile isBlank = text :=
    List.takeWhile_append_dropWhile
  cases visible : text.dropWhile isBlank with
  | nil =>
    have all : ∀ c ∈ text, isBlank c := List.dropWhile_eq_nil_iff.mp visible
    rw [List.dropWhile_append_of_pos all] at first
    exact soft c first
  | cons other rest =>
    rw [List.dropWhile_append, visible] at first
    cases first
    rw [visible] at split
    rw [← split] at tame
    have plain : '#' ∉ text.takeWhile isBlank := fun member =>
      absurd (List.mem_takeWhile_imp member) (by decide)
    exact (tame.behind plain).head

theorem Tame.not_loud {text more : List Char} (tame : Tame text) (soft : Soft more)
    (apart : ∀ c ∈ more.head?, isCallChar c = false) : ¬ Loud (text ++ more) := by
  rintro ⟨c, first, loud⟩
  have quiet : Soft ((text ++ more).dropWhile isCallChar) := by
    cases visible : text.dropWhile isCallChar with
    | nil =>
      have all : ∀ c ∈ text, isCallChar c := List.dropWhile_eq_nil_iff.mp visible
      rwa [dropWhile_until all apart]
    | cons other rest =>
      have plain : '#' ∉ text.takeWhile isCallChar := fun member =>
        absurd (List.mem_takeWhile_imp member)
          (by simp [isCallChar_of_sign (by simp [signs] : '#' ∈ signs)])
      have split : text.takeWhile isCallChar ++ text.dropWhile isCallChar = text :=
        List.takeWhile_append_dropWhile
      rw [List.dropWhile_append, visible]
      rw [← split, visible] at tame
      exact (tame.behind plain).soft soft
  obtain ⟨colon, quote⟩ := quiet c first
  rcases loud with rfl | rfl
  · exact colon rfl
  · exact quote rfl

theorem Tame.startsCall {text more : List Char} (tame : Tame text) (soft : Soft more)
    (apart : ∀ c ∈ more.head?, isCallChar c = false) : startsCall (text ++ more) = false := by
  by_contra starts
  exact tame.not_loud soft apart (loud_of_startsCall (Bool.not_eq_false _ ▸ starts))

/-! ## Call lines -/

def Call.names (call : Call) : List Lexeme := call.name :: call.others.map (·.2)

def Call.nickname? (call : Call) : Option Lexeme :=
  match call.quotation with
  | some (.nickname _ name _) => some name
  | _ => none

/-- A text that is one instrument call: names, perhaps a nickname behind blanks, blanks, and a
colon. -/
structure CallLine where
  name : String
  others : List String
  /-- The nickname and the blanks before it. -/
  nickname : Option (List Char × String)
  space : List Char
  named : ∀ given ∈ name :: others, isName given.toList
  quoted : ∀ gap given, nickname = some (gap, given) →
    gap ≠ [] ∧ (∀ c ∈ gap, isBlank c) ∧ isName given.toList
  blank : ∀ c ∈ space, isBlank c

namespace CallLine

theorem blank_nil : ∀ c ∈ ([] : List Char), isBlank c := by simp

def quotation (line : CallLine) : List Char :=
  match line.nickname with
  | none => []
  | some (gap, given) => gap ++ '"' :: (given.toList ++ ['"'])

def chars (line : CallLine) : List Char :=
  line.name.toList ++ (line.others.flatMap (fun other => '/' :: other.toList)
    ++ (line.quotation ++ (line.space ++ [':'])))

def text (line : CallLine) : String := String.ofList line.chars

end CallLine

theorem isName_chars {given : List Char} (named : isName given) :
    ∃ first second rest, given = first :: second :: rest ∧ isLetter first ∧ isLetter second ∧
      ∀ c ∈ rest, isNameChar c := by
  unfold isName at named
  split at named
  · rename_i first second rest
    simp only [Bool.and_eq_true, List.all_eq_true] at named
    exact ⟨first, second, rest, rfl, named.1.1, named.1.2, named.2⟩
  · cases named

theorem isNameChar_of_isName {given : List Char} (named : isName given) :
    ∀ c ∈ given, isNameChar c := by
  obtain ⟨first, second, rest, rfl, letter, letter', chars⟩ := isName_chars named
  simp only [List.forall_mem_cons, isNameChar, isWord_of_isLetter letter,
    isWord_of_isLetter letter', Bool.true_or, true_and]
  exact chars

namespace Cursor

theorem name?_of_isName {given more : List Char} (named : isName given)
    (apart : ∀ c ∈ more.head?, isNameChar c = false) (pos : Nat) :
    (⟨pos, given ++ more⟩ : Cursor).name? =
      some (⟨pos, given⟩, ⟨pos + given.length, more⟩) := by
  obtain ⟨first, second, rest, rfl, letter, letter', chars⟩ := isName_chars named
  simp [name?, letter, letter', takeWhile_until chars apart, dropWhile_until chars apart, cut]

theorem noName_others {others : List String} {more : List Char}
    (apart : ∀ c ∈ more.head?, isCallChar c = false) :
    ∀ c ∈ (others.flatMap (fun other => '/' :: other.toList) ++ more).head?,
      isNameChar c = false := by
  cases others with
  | nil => exact fun c first => isNameChar_of_isCallChar (apart c first)
  | cons other others =>
    rintro c ⟨⟩
    exact isNameChar_of_sign (by simp [signs])

theorem otherNames_of_isName {others : List String} (named : ∀ other ∈ others, isName other.toList)
    {more : List Char} (apart : ∀ c ∈ more.head?, isCallChar c = false) (pos : Nat) :
    ∃ items after, (⟨pos, others.flatMap (fun other => '/' :: other.toList) ++ more⟩ :
        Cursor).many otherName? = (items, after) ∧ after.rest = more ∧
      items.map (fun item => item.2.text) = others := by
  induction others generalizing pos with
  | nil =>
    refine ⟨[], ⟨pos, more⟩, many_of_none ?_, rfl, rfl⟩
    have noSlash : (⟨pos, more⟩ : Cursor).next? (· == '/') = none := by
      cases more with
      | nil => rfl
      | cons c more =>
        have none := apart c rfl
        simp only [isCallChar, Bool.or_eq_false_iff] at none
        simp [next?, none.2]
    simp [otherName?, noSlash]
  | cons other others ih =>
    rw [List.forall_mem_cons] at named
    let rest := others.flatMap (fun other => '/' :: other.toList) ++ more
    have stop : ∀ c ∈ rest.head?, isNameChar c = false := noName_others apart
    have first : (⟨pos, '/' :: (other.toList ++ rest)⟩ : Cursor).otherName? =
        some ((⟨pos, ['/']⟩, ⟨pos + 1, other.toList⟩),
          ⟨pos + 1 + other.toList.length, rest⟩) := by
      simp [otherName?, next?, cut, name?_of_isName named.1 stop]
    obtain ⟨items, after, later, remaining, texts⟩ := ih named.2 (pos + 1 + other.toList.length)
    refine ⟨(⟨pos, ['/']⟩, ⟨pos + 1, other.toList⟩) :: items, after, ?_, remaining, ?_⟩
    · rw [List.flatMap_cons, List.append_assoc, List.cons_append, many_of_some
        (fun cursor item after read => (advances_otherName? cursor item after read).2) first, later]
    · rw [List.map_cons, texts]
      simp [Lexeme.text]

theorem run_until {p : Char → Bool} {text more : List Char} (all : ∀ c ∈ text, p c)
    (stop : ∀ c ∈ more.head?, p c = false) (pos : Nat) :
    (⟨pos, text ++ more⟩ : Cursor).run p = (⟨pos, text⟩, ⟨pos + text.length, more⟩) := by
  simp [run, cut, takeWhile_until all stop, dropWhile_until all stop]

theorem spacedQuotation?_of_quoted {gap more : List Char} {given : String} (nonempty : gap ≠ [])
    (blank : ∀ c ∈ gap, isBlank c) (named : isName given.toList) (pos : Nat) :
    ∃ opening name closing after,
      (⟨pos, gap ++ '"' :: (given.toList ++ '"' :: more)⟩ : Cursor).spacedQuotation? =
        some (.nickname opening name closing, after) ∧ after.rest = more ∧ name.text = given := by
  have spaces : (⟨pos, gap ++ '"' :: (given.toList ++ '"' :: more)⟩ : Cursor).run? isBlank =
      some (⟨pos, gap⟩, ⟨pos + gap.length, '"' :: (given.toList ++ '"' :: more)⟩) := by
    have stop : ∀ c ∈ ('"' :: (given.toList ++ '"' :: more)).head?, isBlank c = false := by
      rintro c ⟨⟩
      rfl
    rw [run?, run_until blank stop, takeWhile_until blank stop, if_neg nonempty]
  have inside : ∀ c ∈ given.toList, (c != '"' && c != '\n') = true := by
    intro c member
    have letter := isNameChar_of_isName named c member
    have quote : c ≠ '"' := by
      rintro rfl
      exact absurd letter (by simp [isNameChar_of_sign (by simp [signs] : '"' ∈ signs)])
    have newline : c ≠ '\n' := by
      rintro rfl
      exact absurd letter (by simp [isNameChar_of_isBlank (by decide : isBlank '\n')])
    simp [quote, newline]
  have stop : ∀ c ∈ ('"' :: more).head?, (c != '"' && c != '\n') = false := by
    rintro c ⟨⟩
    rfl
  have opens (pos : Nat) (rest : List Char) : (⟨pos, '"' :: rest⟩ : Cursor).next? (· == '"') =
      some (⟨pos, ['"']⟩, ⟨pos + 1, rest⟩) := rfl
  let start := pos + gap.length
  let stop' := start + 1 + given.toList.length
  refine ⟨⟨start, ['"']⟩, ⟨start + 1, given.toList⟩, ⟨stop', ['"']⟩, ⟨stop' + 1, more⟩, ?_, rfl,
    by simp [Lexeme.text]⟩
  simp only [spacedQuotation?, quotation?, quoted?, spaces, Option.bind_eq_bind, Option.bind_some,
    opens, run_until inside stop, Option.pure_def]
  exact if_pos named

theorem spacedQuotation?_of_colon {space more : List Char} (blank : ∀ c ∈ space, isBlank c)
    (pos : Nat) : (⟨pos, space ++ ':' :: more⟩ : Cursor).spacedQuotation? = none := by
  have stop : ∀ c ∈ (':' :: more).head?, isBlank c = false := by
    rintro c ⟨⟩
    rfl
  rw [spacedQuotation?, run?, run_until blank stop, takeWhile_until blank stop]
  split <;> rfl

end Cursor

namespace CallLine

open Cursor

theorem apart_quotation (line : CallLine) (more : List Char) :
    ∀ c ∈ (line.quotation ++ (line.space ++ ':' :: more)).head?, isCallChar c = false := by
  have colon : ∀ c ∈ (line.space ++ ':' :: more).head?, isCallChar c = false := by
    intro c first
    cases spaces : line.space with
    | nil =>
      rw [spaces] at first
      cases first
      exact isCallChar_of_sign (by simp [signs]) (by decide)
    | cons blank space =>
      rw [spaces] at first
      cases first
      exact isCallChar_of_isBlank (line.blank _ (by simp [spaces]))
  intro c first
  unfold quotation at first
  split at first
  · exact colon c first
  · rename_i gap given nickname
    obtain ⟨nonempty, blank, -⟩ := line.quoted gap given nickname
    obtain ⟨space, gap, rfl⟩ := List.exists_cons_of_ne_nil nonempty
    cases first
    exact isCallChar_of_isBlank (blank _ List.mem_cons_self)

theorem call?_chars (line : CallLine) (pos : Nat) (more : List Char) :
    ∃ call after, (⟨pos, line.chars ++ more⟩ : Cursor).call? = some (call, after) ∧
      after.rest = more ∧ call.names.map Lexeme.text = line.name :: line.others ∧
      call.nickname?.map Lexeme.text = line.nickname.map (·.2) ∧
      ∀ text, call.quotation ≠ some (.invalid text) := by
  have chars : line.chars ++ more = line.name.toList ++
      (line.others.flatMap (fun other => '/' :: other.toList) ++
        (line.quotation ++ (line.space ++ ':' :: more))) := by
    simp [CallLine.chars]
  have apart := line.apart_quotation more
  have named := List.forall_mem_cons.mp line.named
  obtain ⟨items, behind, others, rest, texts⟩ :=
    otherNames_of_isName named.2 apart (pos + line.name.toList.length)
  have colon (pos : Nat) : (⟨pos, line.space ++ ':' :: more⟩ : Cursor).skipBlanks.next? (· == ':') =
      some (⟨pos + line.space.length, [':']⟩, ⟨pos + line.space.length + 1, more⟩) := by
    rw [skipBlanks, run_until line.blank (by rintro c ⟨⟩; rfl)]
    rfl
  obtain ⟨pos', rest'⟩ := behind
  subst rest
  rw [chars]
  unfold call?
  rw [name?_of_isName named.1 (noName_others apart)]
  simp only [Option.bind_eq_bind, Option.bind_some, others]
  cases nickname : line.nickname with
  | none =>
    have unquoted : line.quotation = [] := by simp [quotation, nickname]
    rw [unquoted, List.nil_append, spacedQuotation?_of_colon line.blank]
    simp only [colon, Option.bind_some]
    exact ⟨_, _, rfl, rfl, by simp [Call.names, ← texts, Lexeme.text], rfl, nofun⟩
  | some given =>
    obtain ⟨gap, given⟩ := given
    obtain ⟨nonempty, blank, isName⟩ := line.quoted gap given nickname
    have quoted : line.quotation ++ (line.space ++ ':' :: more) =
        gap ++ '"' :: (given.toList ++ '"' :: (line.space ++ ':' :: more)) := by
      simp [quotation, nickname]
    obtain ⟨opening, name, closing, later, read, remaining, text⟩ :=
      spacedQuotation?_of_quoted nonempty blank isName pos'
    obtain ⟨pos'', rest''⟩ := later
    subst remaining
    rw [quoted, read]
    simp only [colon, Option.bind_some]
    exact ⟨_, _, rfl, rfl, by simp [Call.names, ← texts, Lexeme.text],
      by simp [Call.nickname?, text], nofun⟩

theorem startsCall_chars (line : CallLine) (more : List Char) :
    startsCall (line.chars ++ more) := by
  obtain ⟨call, after, read, -⟩ := line.call?_chars 0 more
  rw [startsCall, read]
  rfl

theorem exists_letter (line : CallLine) : ∃ c rest, line.chars = c :: rest ∧ isLetter c := by
  obtain ⟨first, second, rest, name, letter, -⟩ :=
    isName_chars (line.named line.name List.mem_cons_self)
  exact ⟨first, _, by rw [chars, name]; rfl, letter⟩

theorem dropWhile_chars (line : CallLine) (more : List Char) :
    (line.chars ++ more).dropWhile isBlank = line.chars ++ more := by
  obtain ⟨c, rest, chars, letter⟩ := line.exists_letter
  rw [chars, List.cons_append, List.dropWhile_cons_of_neg (by simp [isBlank_of_isLetter letter])]

theorem soft_chars (line : CallLine) (more : List Char) : Soft (line.chars ++ more) := by
  obtain ⟨c, rest, chars, letter⟩ := line.exists_letter
  rw [Soft, line.dropWhile_chars, chars]
  rintro _ ⟨⟩
  constructor
  · rintro rfl
    exact absurd letter (by decide)
  · rintro rfl
    exact absurd letter (by decide)

theorem no_comment (line : CallLine) : '#' ∉ line.chars := by
  have name {given : String} (named : isName given.toList) : '#' ∉ given.toList := fun member =>
    absurd (isNameChar_of_isName named '#' member)
      (by simp [isNameChar_of_sign (by simp [signs] : '#' ∈ signs)])
  have blanks {space : List Char} (blank : ∀ c ∈ space, isBlank c) : '#' ∉ space := fun member =>
    absurd (blank '#' member) (by decide)
  have named := List.forall_mem_cons.mp line.named
  have quotation : '#' ∉ line.quotation := by
    unfold CallLine.quotation
    split
    · simp
    · rename_i gap given nickname
      obtain ⟨-, blank, isName⟩ := line.quoted gap given nickname
      simp [blanks blank, name isName]
  have others : '#' ∉ line.others.flatMap (fun other => '/' :: other.toList) := by
    intro member
    obtain ⟨other, given, member⟩ := List.mem_flatMap.mp member
    rcases List.mem_cons.mp member with slash | within
    · cases slash
    · exact name (named.2 other given) within
  simp [chars, name named.1, others, quotation, blanks line.blank]

theorem not_tame (line : CallLine) (more : List Char) : ¬ Tame (line.chars ++ more) := by
  intro tame
  have split : line.chars = (line.name.toList ++ (line.others.flatMap (fun other =>
      '/' :: other.toList) ++ (line.quotation ++ line.space))) ++ [':'] := by
    simp [chars]
  have plain := line.no_comment
  rw [split] at plain
  rw [split, List.append_assoc] at tame
  exact (tame.behind fun member => plain (List.mem_append_left _ member)).head.1 rfl

end CallLine

end Partbook.Source
