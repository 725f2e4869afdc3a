import Mathlib.Data.List.Infix
import Partbook.Proofs.Source.CallLine
import Partbook.Proofs.Text.Numeral
import Partbook.Text.Initials

/-!
Initials and the patterns that find them. A pattern takes as many word characters as it can and
gives some back when what it asks for behind them is not there; that never helps, so it finds just
the words with that behind them. In a name without a number, these are the words that do not stand
directly before a plus.
-/
namespace Partbook.Text

open Source (isName isNameChar isName_chars)

theorem isWord_signs : ∀ c ∈ ['-', '+', '/'], isWord c = false := by
  have none : ['-', '+', '/'].all fun c => !isWord c := by decide +kernel
  intro c member
  simpa using List.all_eq_true.mp none c member

/-! ## Patterns -/

/-- Word characters and what a pattern asks for behind them, as they are tried: as many word
characters as there are first, and fewer as long as the rest is not found. The result is how many
characters are matched. -/
def tryWord (behind : List Char → Option Nat) : List Char → Option Nat
  | [] => behind []
  | c :: text =>
    if isWord c then ((tryWord behind text).map (· + 1)).or (behind (c :: text))
    else behind (c :: text)

/-- The first characters of everything that the pattern finds, from the left to the right. The next
`matched` characters belong to what was found before. -/
def findAll (behind : List Char → Option Nat) (matched : Nat) : List Char → List Char
  | [] => []
  | c :: text =>
    match matched with
    | matched + 1 => findAll behind matched text
    | 0 =>
      match if isWord c then tryWord behind text else none with
      | some matched => c :: findAll behind matched text
      | none => findAll behind 0 text

def anything : List Char → Option Nat := fun _ => some 0

def hyphen : List Char → Option Nat
  | '-' :: _ => some 1
  | _ => none

section

variable {behind : List Char → Option Nat} {text : List Char} {n : Nat}

theorem tryWord_of_some (found : behind (text.dropWhile isWord) = some n) :
    tryWord behind text = some ((text.takeWhile isWord).length + n) := by
  induction text with
  | nil => simpa [tryWord] using found
  | cons c text ih =>
    by_cases word : isWord c
    · rw [List.dropWhile_cons_of_pos word] at found
      rw [tryWord, if_pos word, ih found, List.takeWhile_cons_of_pos word, List.length_cons]
      exact congrArg some (Nat.add_right_comm _ _ _)
    · rw [List.dropWhile_cons_of_neg word] at found
      rw [tryWord, if_neg word, found, List.takeWhile_cons_of_neg word, List.length_nil,
        Nat.zero_add]

/-- Giving word characters back does not help if the pattern asks for something else. -/
theorem tryWord_of_none (apart : ∀ c text, isWord c → behind (c :: text) = none)
    (missing : behind (text.dropWhile isWord) = none) : tryWord behind text = none := by
  induction text with
  | nil => exact missing
  | cons c text ih =>
    by_cases word : isWord c
    · rw [List.dropWhile_cons_of_pos word] at missing
      rw [tryWord, if_pos word, ih missing, apart c text word]
      rfl
    · rw [List.dropWhile_cons_of_neg word] at missing
      rw [tryWord, if_neg word, missing]

/-- What a pattern asks for behind a word: it is made of other characters, and where it is missing,
no shorter word helps. -/
structure Parted (behind : List Char → Option Nat) : Prop where
  others {text : List Char} {n : Nat} (found : behind text = some n) :
    ∀ c ∈ text.take n, isWord c = false
  missing {text : List Char} (missing : behind (text.dropWhile isWord) = none) :
    tryWord behind text = none

theorem findAll_others (others : ∀ c ∈ text.take n, isWord c = false) :
    findAll behind n text = findAll behind 0 text := by
  induction text generalizing n with
  | nil => rfl
  | cons c text ih =>
    cases n with
    | zero => rfl
    | succ n =>
      rw [List.take_succ_cons, List.forall_mem_cons] at others
      rw [findAll, ih others.2, findAll, others.1]
      rfl

/-- From the start of a word, from within one that is not taken, and from within one that is. -/
theorem Parted.findAll_eq (parted : Parted behind) (text : List Char) :
    findAll behind 0 text = initialsFrom (fun text => (behind text).isSome) false text ∧
    (behind (text.dropWhile isWord) = none →
      findAll behind 0 text = initialsFrom (fun text => (behind text).isSome) true text) ∧
    ∀ n, behind (text.dropWhile isWord) = some n →
      findAll behind ((text.takeWhile isWord).length + n) text =
        initialsFrom (fun text => (behind text).isSome) true text := by
  induction text with
  | nil => exact ⟨rfl, fun _ => rfl, fun _ _ => rfl⟩
  | cons c text ih =>
    obtain ⟨outside, untaken, taken⟩ := ih
    by_cases word : isWord c
    · rw [List.dropWhile_cons_of_pos word, List.takeWhile_cons_of_pos word]
      simp only [initialsFrom, word, if_true, Bool.not_false, Bool.not_true, Bool.true_and,
        Bool.false_and, Bool.false_eq_true, if_false]
      refine ⟨?_, fun missing => ?_, fun n found => ?_⟩
      · cases here : behind (text.dropWhile isWord) with
        | none => simp only [findAll, word, if_true, parted.missing here, untaken here,
            Option.isSome_none, Bool.false_eq_true, if_false]
        | some n => simp only [findAll, word, if_true, tryWord_of_some here, taken n here,
            Option.isSome_some]
      · simp only [findAll, word, if_true, parted.missing missing, untaken missing]
      · rw [List.length_cons, Nat.add_right_comm, findAll, taken n found]
    · rw [List.dropWhile_cons_of_neg word, List.takeWhile_cons_of_neg word]
      have next : findAll behind 0 (c :: text) = findAll behind 0 text := by
        simp only [findAll, word, Bool.false_eq_true, if_false]
      simp only [initialsFrom, word, Bool.false_eq_true, if_false]
      refine ⟨next.trans outside, fun _ => next.trans outside, fun n found => ?_⟩
      rw [List.length_nil, Nat.zero_add, findAll_others (parted.others found), next, outside]

end

theorem parted_anything : Parted anything where
  others found := by
    cases found
    simp
  missing missing := by cases missing

theorem parted_hyphen : Parted hyphen where
  others {text} n found := by
    unfold hyphen at found
    split at found
    · cases found
      exact List.forall_mem_singleton.mpr (isWord_signs _ (by simp))
    · cases found
  missing missing := by
    refine tryWord_of_none (fun c text word => ?_) missing
    unfold hyphen
    split
    · rename_i same
      cases same
      simp [isWord_signs] at word
    · rfl

theorem initials_eq_findAll (text : String) :
    initials text = String.ofList (findAll anything 0 text.toList) := by
  rw [(parted_anything.findAll_eq text.toList).1]
  rfl

theorem hyphenInitials_eq_findAll (text : String) :
    hyphenInitials text = String.ofList (findAll hyphen 0 text.toList) := by
  have same : (fun text => (hyphen text).isSome) = fun rest => rest.head? == some '-' := by
    funext text
    unfold hyphen
    split
    · rfl
    · rename_i other
      cases text with
      | nil => rfl
      | cons c text =>
        have apart : c ≠ '-' := fun same => other text (by rw [same])
        simp [apart]
  rw [(parted_hyphen.findAll_eq text.toList).1, same]
  rfl

/-! ## Words -/

def words (text : List Char) : List (List Char) :=
  (text.splitOnP fun c => !isWord c).filter (!·.isEmpty)

def firstChars (words : List (List Char)) : List Char := words.filterMap List.head?

theorem firstChars_words (text : List Char) :
    firstChars (words text) = (text.splitOnP fun c => !isWord c).filterMap List.head? := by
  rw [firstChars, words, List.filterMap_filter]
  refine List.filterMap_congr fun word _ => ?_
  cases word <;> rfl

theorem initialsFrom_eq_words (inside : Bool) (text : List Char) :
    initialsFrom (fun _ => true) inside text =
      (if inside then (text.splitOnP fun c => !isWord c).tail
        else text.splitOnP fun c => !isWord c).filterMap List.head? := by
  induction text generalizing inside with
  | nil => cases inside <;> simp [initialsFrom]
  | cons c text ih =>
    obtain ⟨run, runs, parts⟩ := List.exists_cons_of_ne_nil
      (List.splitOnP_ne_nil (fun c => !isWord c) text)
    rw [parts] at ih
    rw [List.splitOnP_cons_eq_if_modifyHead, parts, initialsFrom]
    by_cases word : isWord c <;> cases inside <;> simp [word, ih, List.filterMap_cons]

theorem toList_initials (text : String) :
    (initials text).toList = firstChars (words text.toList) := by
  rw [initials, String.toList_ofList, initialsFrom_eq_words, firstChars_words]
  rfl

theorem firstChars_ne_nil {text : List Char} (named : isName text) :
    firstChars (words text) ≠ [] := by
  obtain ⟨first, second, rest, rfl, letter, -, -⟩ := isName_chars named
  rw [firstChars_words, List.splitOnP_cons_eq_if_modifyHead]
  obtain ⟨run, runs, parts⟩ := List.exists_cons_of_ne_nil
    (List.splitOnP_ne_nil (fun c => !isWord c) (second :: rest))
  simp [isWord_of_isLetter letter, parts]

/-! ## What stands behind a word -/

def starts (inside : Bool) : List Char → List (Char × List Char)
  | [] => []
  | c :: text =>
    if isWord c then
      if inside then starts true text else (c, text.dropWhile isWord) :: starts true text
    else starts false text

theorem initialsFrom_eq_starts (followed : List Char → Bool) (inside : Bool) (text : List Char) :
    initialsFrom followed inside text =
      ((starts inside text).filter fun start => followed start.2).map (·.1) := by
  induction text generalizing inside with
  | nil => rfl
  | cons c text ih =>
    rw [initialsFrom, starts]
    by_cases word : isWord c <;> by_cases here : followed (text.dropWhile isWord) <;>
      cases inside <;> simp [word, here, ih]

def EndsWord (text rest : List Char) : Prop :=
  ∃ c, isWord c ∧ (c :: rest) <:+ text ∧ ∀ d ∈ rest.head?, isWord d = false

variable {text rest : List Char}

theorem endsWord_cons {c : Char} : EndsWord (c :: text) rest ↔
    (isWord c ∧ rest = text ∧ ∀ d ∈ text.head?, isWord d = false) ∨ EndsWord text rest := by
  constructor
  · rintro ⟨d, word, suffix, ends⟩
    rcases List.suffix_cons_iff.mp suffix with whole | later
    · obtain ⟨rfl, rfl⟩ := List.cons.inj whole
      exact .inl ⟨word, rfl, ends⟩
    · exact .inr ⟨d, word, later, ends⟩
  · rintro (⟨word, rfl, ends⟩ | ⟨d, word, suffix, ends⟩)
    · exact ⟨c, word, List.suffix_refl _, ends⟩
    · exact ⟨d, word, suffix.trans (List.suffix_cons c text), ends⟩

theorem endsWord_run {c : Char} (word : isWord c) :
    EndsWord (c :: text) (text.dropWhile isWord) := by
  induction text generalizing c with
  | nil => exact ⟨c, word, List.suffix_refl _, nofun⟩
  | cons next text ih =>
    by_cases goesOn : isWord next
    · rw [List.dropWhile_cons_of_pos goesOn]
      exact endsWord_cons.mpr (.inr (ih goesOn))
    · rw [List.dropWhile_cons_of_neg goesOn]
      exact endsWord_cons.mpr (.inl ⟨word, rfl, by simpa using goesOn⟩)

theorem endsWord_cons_word {c : Char} (word : isWord c) :
    EndsWord (c :: text) rest ↔ rest = text.dropWhile isWord ∨ EndsWord text rest := by
  constructor
  · intro ends
    rcases endsWord_cons.mp ends with ⟨-, rfl, here⟩ | later
    · left
      cases rest with
      | nil => rfl
      | cons d rest => rw [List.dropWhile_cons_of_neg (by simpa using here)]
    · exact .inr later
  · rintro (rfl | later)
    · exact endsWord_run word
    · exact endsWord_cons.mpr (.inr later)

theorem EndsWord.length_lt (ends : EndsWord text rest) : rest.length < text.length := by
  obtain ⟨c, -, suffix, -⟩ := ends
  exact suffix.length_le

theorem mem_starts (inside : Bool) (text rest : List Char) :
    (∃ c, (c, rest) ∈ starts inside text) ↔
      EndsWord text rest ∧ (inside → rest ≠ text.dropWhile isWord) := by
  induction text generalizing inside with
  | nil =>
    have none : ¬ EndsWord [] rest := fun ends => Nat.not_lt_zero _ ends.length_lt
    simp [starts, none]
  | cons c text ih =>
    by_cases word : isWord c
    · rw [starts, if_pos word, List.dropWhile_cons_of_pos word, endsWord_cons_word word]
      cases inside with
      | true =>
        rw [if_pos rfl, ih true]
        tauto
      | false =>
        have first : (∃ d, (d, rest) ∈ (c, text.dropWhile isWord) :: starts true text) ↔
            rest = text.dropWhile isWord ∨ ∃ d, (d, rest) ∈ starts true text := by
          simp [exists_or]
        rw [if_neg Bool.false_ne_true, first, ih true]
        tauto
    · rw [starts, if_neg word, List.dropWhile_cons_of_neg word, ih false, endsWord_cons]
      have longer : EndsWord text rest → rest ≠ c :: text := by
        rintro ends rfl
        exact absurd ends.length_lt (by simp)
      simp only [word, Bool.false_eq_true, false_and, false_or, false_implies, and_true]
      exact ⟨fun ends => ⟨ends, fun _ => longer ends⟩, fun ends => ends.1⟩

theorem firstChars_eq_starts (text : List Char) :
    firstChars (words text) = (starts false text).map (·.1) := by
  have all := initialsFrom_eq_starts (fun _ => true) false text
  rw [List.filter_true, initialsFrom_eq_words, if_neg Bool.false_ne_true] at all
  rw [firstChars_words, all]

theorem forall_starts {p : List Char → Prop} :
    (∀ start ∈ starts false text, p start.2) ↔ ∀ rest, EndsWord text rest → p rest := by
  constructor
  · intro each rest ends
    obtain ⟨c, member⟩ := (mem_starts false text rest).mpr ⟨ends, nofun⟩
    exact each (c, rest) member
  · rintro each ⟨c, rest⟩ member
    exact each rest ((mem_starts false text rest).mp ⟨c, member⟩).1

theorem isWord_of_mem_initialsFrom {followed : List Char → Bool} {inside : Bool} :
    ∀ c ∈ initialsFrom followed inside text, isWord c := by
  induction text generalizing inside with
  | nil => nofun
  | cons c text ih =>
    rw [initialsFrom]
    split
    · rename_i word
      split
      · exact List.forall_mem_cons.mpr ⟨word, ih⟩
      · exact ih
    · exact ih

/-! ## Names with numbers -/

def WordBefore (sign : Char) (text : List Char) : Prop := ∃ c, isWord c ∧ [c, sign] <:+: text

def WordLast (text : List Char) : Prop := ∃ c, isWord c ∧ [c] <:+ text

instance (sign : Char) (text : List Char) : Decidable (WordBefore sign text) :=
  decidable_of_iff (text.any fun c => isWord c && decide ([c, sign] <:+: text)) <| by
    simp only [List.any_eq_true, Bool.and_eq_true, decide_eq_true_eq]
    exact ⟨fun ⟨c, _, before⟩ => ⟨c, before⟩,
      fun ⟨c, word, within⟩ => ⟨c, within.subset List.mem_cons_self, word, within⟩⟩

theorem wordBefore_iff {sign : Char} (isSign : isWord sign = false) :
    WordBefore sign text ↔ ∃ rest, EndsWord text rest ∧ rest.head? = some sign := by
  constructor
  · rintro ⟨c, word, within⟩
    obtain ⟨_, ⟨rest, rfl⟩, suffix⟩ := List.infix_iff_prefix_suffix.mp within
    refine ⟨sign :: rest, ⟨c, word, suffix, ?_⟩, rfl⟩
    rintro _ ⟨⟩
    exact isSign
  · rintro ⟨rest, ⟨c, word, suffix, -⟩, first⟩
    obtain ⟨more, rfl⟩ := List.head?_eq_some_iff.mp first
    exact ⟨c, word, List.infix_iff_prefix_suffix.mpr ⟨_, ⟨more, rfl⟩, suffix⟩⟩

theorem wordLast_iff : WordLast text ↔ EndsWord text [] := by
  constructor
  · rintro ⟨c, word, suffix⟩
    exact ⟨c, word, suffix, nofun⟩
  · rintro ⟨c, word, suffix, -⟩
    exact ⟨c, word, suffix⟩

variable {name number : List Char}

theorem head?_of_endsWord (named : ∀ c ∈ name, isNameChar c) (ends : EndsWord name rest) :
    rest = [] ∨ rest.head? = some '-' ∨ rest.head? = some '+' := by
  obtain ⟨c, -, suffix, other⟩ := ends
  cases rest with
  | nil => exact .inl rfl
  | cons d rest =>
    have proper := named d (suffix.subset (by simp))
    have noWord : isWord d = false := other d rfl
    simp only [isNameChar, noWord, Bool.false_or, Bool.or_eq_true, beq_iff_eq] at proper
    simpa using proper

theorem starts_hyphen (inside : Bool) (text more : List Char) :
    starts inside (text ++ '-' :: more) =
      (starts inside text).map (fun start => (start.1, start.2 ++ '-' :: more)) ++
        starts false more := by
  have noWord : isWord '-' = false := isWord_signs _ (by simp)
  have cut (text : List Char) : (text ++ '-' :: more).dropWhile isWord =
      text.dropWhile isWord ++ '-' :: more := by
    rw [List.dropWhile_append, List.dropWhile_cons_of_neg (by simp [noWord])]
    split
    · rename_i none
      rw [List.isEmpty_iff.mp none, List.nil_append]
    · rfl
  induction text generalizing inside with
  | nil => simp [starts, noWord]
  | cons c text ih =>
    rw [List.cons_append, starts, starts, cut]
    by_cases word : isWord c <;> cases inside <;> simp [word, ih]

def IsNumber (number : List Char) : Prop :=
  ∃ digits, (∀ d ∈ digits, isWord d) ∧ (number = digits ∨ number = '-' :: digits)

theorem isNumber_toString (n : Int) : IsNumber (toString n).toList := by
  have digits (n : Nat) : ∀ d ∈ n.repr.toList, isWord d := by
    intro d member
    rw [Nat.toList_repr] at member
    exact isWord_of_isDecimal ((isGroup_toDigits n).1.decimal d member)
  cases n with
  | ofNat n => exact ⟨_, digits n, .inl rfl⟩
  | negSucc n =>
    refine ⟨_, digits (n + 1), .inr ?_⟩
    change ("-" ++ (n + 1).repr).toList = _
    rw [String.toList_append]
    rfl

theorem IsNumber.starts (isNumber : IsNumber number) :
    ∀ start ∈ starts false number, start.2 = [] := by
  obtain ⟨digits, all, shape⟩ := isNumber
  have none : ∀ start ∈ Text.starts false digits, start.2 = [] := by
    refine forall_starts (p := fun rest => rest = []) |>.mpr fun rest ends => ?_
    obtain ⟨c, -, suffix, other⟩ := ends
    cases rest with
    | nil => rfl
    | cons d rest =>
      have word := all d (suffix.subset (by simp))
      rw [other d rfl] at word
      cases word
  rcases shape with rfl | rfl
  · exact none
  · rw [Text.starts, if_neg (by simp [isWord_signs])]
    exact none

theorem initialsFrom_numbered (named : ∀ c ∈ name, isNameChar c) (isNumber : IsNumber number) :
    initialsFrom (fun rest => rest.head? == some '-') false (name ++ '-' :: number) =
      ((starts false name).filter fun start => start.2.head? != some '+').map (·.1) := by
  have numberless : (starts false number).filter (fun start => start.2.head? == some '-') = [] :=
    List.filter_eq_nil_iff.mpr fun start member => by simp [isNumber.starts start member]
  rw [initialsFrom_eq_starts, starts_hyphen, List.filter_append, numberless, List.append_nil,
    List.filter_map, List.map_map]
  have behind : ∀ start ∈ starts false name,
      ((start.2 ++ '-' :: number).head? == some '-') = (start.2.head? != some '+') := by
    refine forall_starts (p := fun rest => ((rest ++ '-' :: number).head? == some '-') =
      (rest.head? != some '+')) |>.mpr fun rest ends => ?_
    rcases head?_of_endsWord named ends with rfl | first | first
    · rfl
    · obtain ⟨more, rfl⟩ := List.head?_eq_some_iff.mp first
      rfl
    · obtain ⟨more, rfl⟩ := List.head?_eq_some_iff.mp first
      rfl
  exact congrArg (List.map _) (List.filter_congr behind)

/-- All initials of the name are found exactly if no word stands directly before a plus. -/
theorem initialsFrom_eq_firstChars_iff (named : ∀ c ∈ name, isNameChar c)
    (isNumber : IsNumber number) :
    initialsFrom (fun rest => rest.head? == some '-') false (name ++ '-' :: number) =
      firstChars (words name) ↔ ¬ WordBefore '+' name := by
  rw [initialsFrom_numbered named isNumber, firstChars_eq_starts]
  have all : ((starts false name).filter fun start => start.2.head? != some '+').map (·.1) =
      (starts false name).map (·.1) ↔ ∀ start ∈ starts false name, start.2.head? ≠ some '+' := by
    constructor
    · intro same
      have lengths := congrArg List.length same
      rw [List.length_map, List.length_map, List.length_filter_eq_length_iff] at lengths
      simpa using lengths
    · intro each
      rw [List.filter_eq_self.mpr (by simpa using each)]
  rw [all, forall_starts (p := fun rest => rest.head? ≠ some '+'),
    wordBefore_iff (isWord_signs _ (by simp))]
  simp only [not_exists, not_and]

theorem initialsFrom_ne_nil_iff (named : ∀ c ∈ name, isNameChar c) (isNumber : IsNumber number) :
    initialsFrom (fun rest => rest.head? == some '-') false (name ++ '-' :: number) ≠ [] ↔
      WordLast name ∨ WordBefore '-' name := by
  rw [initialsFrom_numbered named isNumber, wordLast_iff,
    wordBefore_iff (isWord_signs _ (by simp))]
  have none : ((starts false name).filter fun start => start.2.head? != some '+').map (·.1) = [] ↔
      ∀ rest, EndsWord name rest → rest.head? = some '+' := by
    rw [List.map_eq_nil_iff, List.filter_eq_nil_iff, ← forall_starts]
    simp
  rw [Ne, none]
  constructor
  · intro other
    simp only [not_forall] at other
    obtain ⟨rest, ends, noPlus⟩ := other
    rcases head?_of_endsWord named ends with rfl | first | first
    · exact .inl ends
    · exact .inr ⟨rest, ends, first⟩
    · exact absurd first noPlus
  · rintro (last | ⟨rest, ends, first⟩) each
    · cases each [] last
    · rw [each rest ends] at first
      cases first

end Partbook.Text
