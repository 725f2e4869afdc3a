import Mathlib.Data.List.DropRight
import Partbook.Proofs.Source.Characters
import Partbook.Text.Numeral

namespace Partbook.Text

open Source (isBlank_of_isDecimal)

theorem isMargin_of_isDecimal {c : Char} (digit : isDecimal c) : isMargin c = false := by
  simp [isMargin, isBlank_of_isDecimal digit]

/-! ## Trimming -/

section Trimming

variable {p : Char → Bool} {text before core after : List Char}

theorem trim_eq (p : Char → Bool) (text : List Char) :
    trim p text = (text.dropWhile p).rdropWhile p := rfl

structure Firm (p : Char → Bool) (text : List Char) : Prop where
  first : ∃ c rest, text = c :: rest ∧ p c = false
  last : ∃ front c, text = front ++ [c] ∧ p c = false

theorem trim_eq_self (none : ∀ c ∈ text, p c = false) : trim p text = text := by
  have inside (chars : List Char) (all : ∀ c ∈ chars, p c = false) : chars.dropWhile p = chars := by
    cases chars with
    | nil => rfl
    | cons c chars => exact List.dropWhile_cons_of_neg (by simp [all c List.mem_cons_self])
  rw [trim, inside text none, inside text.reverse (by simpa using none), List.reverse_reverse]

theorem exists_trim (p : Char → Bool) (text : List Char) : ∃ before after,
    (∀ c ∈ before, p c) ∧ (∀ c ∈ after, p c) ∧ text = before ++ (trim p text ++ after) := by
  refine ⟨text.takeWhile p, (text.dropWhile p).rtakeWhile p, fun c => List.mem_takeWhile_imp,
    fun c => List.mem_rtakeWhile_imp, ?_⟩
  rw [trim_eq, List.rdropWhile_append_rtakeWhile, List.takeWhile_append_dropWhile]

theorem trim_append (firm : Firm p core) (before after : List Char) :
    trim p (before ++ (core ++ after)) = before.dropWhile p ++ (core ++ after.rdropWhile p) := by
  have front (text : List Char) (first : ∃ c rest, text = c :: rest ∧ p c = false)
      (before : List Char) : (before ++ text).dropWhile p = before.dropWhile p ++ text := by
    obtain ⟨c, rest, rfl, other⟩ := first
    rw [List.dropWhile_append]
    split
    · rename_i none
      rw [List.isEmpty_iff.mp none, List.dropWhile_cons_of_neg (by simp [other]), List.nil_append]
    · rfl
  obtain ⟨c, rest, begins, other⟩ := firm.first
  obtain ⟨body, last, ends, other'⟩ := firm.last
  rw [trim_eq, front _ ⟨c, rest ++ after, by rw [begins]; rfl, other⟩, List.rdropWhile,
    List.reverse_append, List.reverse_append, List.append_assoc,
    front _ ⟨last, body.reverse ++ (before.dropWhile p).reverse, by rw [ends]; simp, other'⟩]
  simp [List.rdropWhile]

theorem trim_around (firm : Firm p core) (begins : ∀ c ∈ before, p c) (ends : ∀ c ∈ after, p c) :
    trim p (before ++ (core ++ after)) = core := by
  rw [trim_append firm, List.dropWhile_eq_nil_iff.mpr begins, List.rdropWhile_eq_nil_iff.mpr ends,
    List.append_nil, List.nil_append]

end Trimming

/-! ## Digits -/

def valueFrom (n : Nat) (digits : List Char) : Nat :=
  digits.foldl (fun n c => 10 * n + (decimal? c).getD 0) n

def valueOf (digits : List Char) : Nat := valueFrom 0 digits

theorem valueFrom_cons (n : Nat) {c : Char} {digit : Nat} (value : decimal? c = some digit)
    (digits : List Char) : valueFrom n (c :: digits) = valueFrom (10 * n + digit) digits := by
  rw [valueFrom, List.foldl_cons, value]
  rfl

theorem isDecimal_underscore : isDecimal '_' = false := by decide

structure IsGroup (group : List Char) : Prop where
  nonempty : group ≠ []
  decimal : ∀ c ∈ group, isDecimal c

/-- Groups of digits with an underscore between any two, and the value of all the digits. -/
inductive Grouped : List Char → Nat → Prop
  | intro {first : List Char} {others : List (List Char)}
      (groups : ∀ group ∈ first :: others, IsGroup group) :
      Grouped (first ++ others.flatMap ('_' :: ·)) (valueOf (first ++ others.flatten))

theorem digitsFrom_cons (n : Nat) {c : Char} {digit : Nat} (value : decimal? c = some digit)
    (rest : List Char) : digitsFrom n (c :: rest) = digitsFrom (10 * n + digit) rest := by
  have plain : c ≠ '_' := by
    rintro rfl
    exact absurd (Option.isSome_of_eq_some value) (by simp [decimal?_isSome, isDecimal_underscore])
  simp [digitsFrom, plain, value]

theorem digitsFrom_underscore (n : Nat) {c : Char} (digit : isDecimal c) (rest : List Char) :
    digitsFrom n ('_' :: c :: rest) = digitsFrom n (c :: rest) := by
  obtain ⟨value, found⟩ := Option.isSome_iff_exists.mp digit
  rw [digitsFrom_cons n found]
  simp [digitsFrom, found]

theorem digitsFrom_append (n : Nat) {digits : List Char} (decimal : ∀ c ∈ digits, isDecimal c)
    (rest : List Char) :
    digitsFrom n (digits ++ rest) = digitsFrom (valueFrom n digits) rest := by
  induction digits generalizing n with
  | nil => rfl
  | cons c digits ih =>
    rw [List.forall_mem_cons] at decimal
    obtain ⟨value, found⟩ := Option.isSome_iff_exists.mp decimal.1
    rw [List.cons_append, digitsFrom_cons n found, ih _ decimal.2, valueFrom_cons n found]

theorem digitsFrom_groups (n : Nat) {groups : List (List Char)}
    (each : ∀ group ∈ groups, IsGroup group) :
    digitsFrom n (groups.flatMap ('_' :: ·)) = some (valueFrom n groups.flatten) := by
  induction groups generalizing n with
  | nil => rfl
  | cons group groups ih =>
    rw [List.forall_mem_cons] at each
    obtain ⟨c, rest, rfl⟩ := List.exists_cons_of_ne_nil each.1.nonempty
    rw [List.flatMap_cons, List.cons_append, List.cons_append,
      digitsFrom_underscore n (each.1.decimal c List.mem_cons_self), ← List.cons_append,
      digitsFrom_append n each.1.decimal, ih _ each.2, List.flatten_cons]
    simp [valueFrom]

theorem exists_groups {n value : Nat} {text : List Char} (read : digitsFrom n text = some value) :
    ∃ (first : List Char) (others : List (List Char)), (∀ c ∈ first, isDecimal c) ∧
      (∀ group ∈ others, IsGroup group) ∧ text = first ++ others.flatMap ('_' :: ·) ∧
      value = valueFrom n (first ++ others.flatten) := by
  fun_induction digitsFrom n text with
  | case1 n =>
    cases read
    exact ⟨[], [], by simp, by simp, rfl, rfl⟩
  | case2 n c rest ih =>
    obtain ⟨digit, found, later⟩ := Option.bind_eq_some_iff.mp read
    obtain ⟨first, others, decimal, groups, rfl, rfl⟩ := ih digit later
    refine ⟨[], (c :: first) :: others, by simp, List.forall_mem_cons.mpr ⟨⟨by simp, ?_⟩, groups⟩,
      by simp, ?_⟩
    · exact List.forall_mem_cons.mpr ⟨Option.isSome_of_eq_some found, decimal⟩
    · rw [List.flatten_cons, List.nil_append, List.cons_append, valueFrom_cons n found]
  | case3 n c rest other ih =>
    obtain ⟨digit, found, later⟩ := Option.bind_eq_some_iff.mp read
    obtain ⟨first, others, decimal, groups, rfl, rfl⟩ := ih digit later
    refine ⟨c :: first, others, ?_, groups, rfl, ?_⟩
    · exact List.forall_mem_cons.mpr ⟨Option.isSome_of_eq_some found, decimal⟩
    · rw [List.cons_append, valueFrom_cons n found]

theorem natOfChars?_eq_some_iff {text : List Char} {n : Nat} :
    natOfChars? text = some n ↔ Grouped text n := by
  have start {c : Char} {digit : Nat} (found : decimal? c = some digit) (digits : List Char) :
      valueFrom digit digits = valueOf (c :: digits) := by
    rw [valueOf, valueFrom_cons 0 found, Nat.mul_zero, Nat.zero_add]
  constructor
  · intro read
    cases text with
    | nil => cases read
    | cons c rest =>
      obtain ⟨digit, found, later⟩ := Option.bind_eq_some_iff.mp read
      obtain ⟨first, others, decimal, groups, rfl, rfl⟩ := exists_groups later
      rw [start found, ← List.cons_append, ← List.cons_append]
      exact .intro (List.forall_mem_cons.mpr ⟨⟨by simp, List.forall_mem_cons.mpr
        ⟨Option.isSome_of_eq_some found, decimal⟩⟩, groups⟩)
  · rintro ⟨groups⟩
    rename_i first others
    rw [List.forall_mem_cons] at groups
    obtain ⟨c, rest, rfl⟩ := List.exists_cons_of_ne_nil groups.1.nonempty
    obtain ⟨decimal, more⟩ := List.forall_mem_cons.mp groups.1.decimal
    obtain ⟨digit, found⟩ := Option.isSome_iff_exists.mp decimal
    rw [List.cons_append, List.cons_append, natOfChars?, found, ← start found]
    show digitsFrom digit _ = _
    rw [digitsFrom_append digit more, digitsFrom_groups _ groups.2]
    simp [valueFrom]

theorem Grouped.single {digits : List Char} (group : IsGroup digits) :
    Grouped digits (valueOf digits) := by
  have single : Grouped (digits ++ [].flatMap ('_' :: ·)) (valueOf (digits ++ [].flatten)) :=
    .intro (List.forall_mem_singleton.mpr group)
  simpa using single

theorem Grouped.firm {text : List Char} {n : Nat} (grouped : Grouped text n) {p : Char → Bool}
    (noDigit : ∀ c, isDecimal c → p c = false) : Firm p text := by
  obtain ⟨groups⟩ := grouped
  rename_i first others
  constructor
  · obtain ⟨nonempty, decimal⟩ := groups first List.mem_cons_self
    obtain ⟨c, rest, rfl⟩ := List.exists_cons_of_ne_nil nonempty
    exact ⟨c, _, rfl, noDigit c (decimal c List.mem_cons_self)⟩
  · have ends (before : List Char) {group : List Char} (isGroup : IsGroup group) :
        ∃ front c, before ++ group = front ++ [c] ∧ p c = false := by
      obtain ⟨front, c, rfl⟩ := (List.eq_nil_or_concat group).resolve_left isGroup.nonempty
      exact ⟨before ++ front, c, by simp, noDigit c (isGroup.decimal c (by simp))⟩
    rcases List.eq_nil_or_concat others with rfl | ⟨front, last, rfl⟩
    · simpa using ends [] (groups first List.mem_cons_self)
    · simpa using ends (first ++ (front.flatMap ('_' :: ·) ++ ['_'])) (groups last (by simp))

/-! ## Integers -/

theorem Grouped.starts {text : List Char} {n : Nat} (grouped : Grouped text n) :
    ∃ c rest, text = c :: rest ∧ isDecimal c := by
  obtain ⟨groups⟩ := grouped
  obtain ⟨nonempty, decimal⟩ := groups _ List.mem_cons_self
  obtain ⟨c, rest, rfl⟩ := List.exists_cons_of_ne_nil nonempty
  exact ⟨c, _, rfl, decimal c List.mem_cons_self⟩

theorem intOfChars?_plus (rest : List Char) :
    intOfChars? ('+' :: rest) = (natOfChars? rest).map Nat.cast := by
  cases value : natOfChars? rest <;> simp [intOfChars?, value]

theorem intOfChars?_minus (rest : List Char) :
    intOfChars? ('-' :: rest) = (natOfChars? rest).map fun n => -Nat.cast n := by
  cases value : natOfChars? rest <;> simp [intOfChars?, value]

theorem intOfChars?_unsigned {text : List Char} (unsigned : ∀ c ∈ text.head?, c ≠ '-' ∧ c ≠ '+') :
    intOfChars? text = (natOfChars? text).map Nat.cast := by
  cases text with
  | nil => rfl
  | cons c rest =>
    obtain ⟨minus, plus⟩ := unsigned c rfl
    cases value : natOfChars? (c :: rest) <;> simp [intOfChars?, minus, plus, value]

theorem Grouped.unsigned {text : List Char} {n : Nat} (grouped : Grouped text n) :
    ∀ c ∈ text.head?, c ≠ '-' ∧ c ≠ '+' := by
  obtain ⟨c, rest, rfl, digit⟩ := grouped.starts
  rintro _ ⟨⟩
  constructor
  · rintro rfl
    exact absurd digit (by decide)
  · rintro rfl
    exact absurd digit (by decide)

theorem signed_or_unsigned (text : List Char) : (∃ rest, text = '-' :: rest) ∨
    (∃ rest, text = '+' :: rest) ∨ ∀ c ∈ text.head?, c ≠ '-' ∧ c ≠ '+' := by
  cases text with
  | nil => exact .inr (.inr nofun)
  | cons c rest =>
    by_cases minus : c = '-'
    · exact .inl ⟨rest, by rw [minus]⟩
    · by_cases plus : c = '+'
      · exact .inr (.inl ⟨rest, by rw [plus]⟩)
      · refine .inr (.inr ?_)
        rintro _ ⟨⟩
        exact ⟨minus, plus⟩

theorem intOfChars?_pos_iff {text : List Char} {n : Nat} (positive : 0 < n) :
    intOfChars? text = some (n : Int) ↔
      ∃ sign digits, (sign = [] ∨ sign = ['+']) ∧ text = sign ++ digits ∧ Grouped digits n := by
  constructor
  · intro read
    rcases signed_or_unsigned text with ⟨rest, rfl⟩ | ⟨rest, rfl⟩ | unsigned
    · rw [intOfChars?_minus, Option.map_eq_some_iff] at read
      obtain ⟨value, -, same⟩ := read
      omega
    · rw [intOfChars?_plus, Option.map_eq_some_iff] at read
      obtain ⟨value, grouped, same⟩ := read
      obtain rfl : value = n := Int.ofNat_inj.mp same
      exact ⟨['+'], rest, .inr rfl, rfl, natOfChars?_eq_some_iff.mp grouped⟩
    · rw [intOfChars?_unsigned unsigned, Option.map_eq_some_iff] at read
      obtain ⟨value, grouped, same⟩ := read
      obtain rfl : value = n := Int.ofNat_inj.mp same
      exact ⟨[], text, .inl rfl, rfl, natOfChars?_eq_some_iff.mp grouped⟩
  · rintro ⟨sign, digits, rfl | rfl, written, grouped⟩
    · rw [written, List.nil_append, intOfChars?_unsigned grouped.unsigned,
        natOfChars?_eq_some_iff.mpr grouped, Option.map_some]
    · rw [written, List.singleton_append, intOfChars?_plus, natOfChars?_eq_some_iff.mpr grouped,
        Option.map_some]

theorem int?_of_isDecimal {digits : List Char} (group : IsGroup digits) :
    int? (String.ofList digits) = some (valueOf digits : Int) := by
  have plain : trim isMargin digits = digits :=
    trim_eq_self fun c member => isMargin_of_isDecimal (group.decimal c member)
  have grouped := Grouped.single group
  rw [int?, String.toList_ofList, plain, intOfChars?_unsigned grouped.unsigned,
    natOfChars?_eq_some_iff.mpr grouped, Option.map_some]

theorem int?_isSome {text : String} (nonempty : text.toList ≠ [])
    (digits : ∀ c ∈ text.toList, isDecimal c) : (int? text).isSome := by
  have value := int?_of_isDecimal ⟨nonempty, digits⟩
  rw [String.ofList_toList] at value
  exact Option.isSome_of_eq_some value

/-! ## Numbers as texts -/

theorem decimal?_digitChar {digit : Nat} (small : digit < 10) :
    decimal? (Nat.digitChar digit) = some digit := by
  have each : ∀ digit < 10, decimal? (Nat.digitChar digit) = some digit := by decide
  exact each digit small

theorem isGroup_toDigits (n : Nat) :
    IsGroup (Nat.toDigits 10 n) ∧ valueOf (Nat.toDigits 10 n) = n := by
  induction n using Nat.strongRecOn with
  | ind n ih =>
    have single {digit : Nat} (small : digit < 10) :
        ∀ c ∈ [Nat.digitChar digit], isDecimal c := by
      rw [List.forall_mem_singleton, isDecimal, decimal?_digitChar small]
      rfl
    rw [Nat.toDigits_eq_if (by decide)]
    split
    · rename_i small
      exact ⟨⟨by simp, single small⟩, by simp [valueOf, valueFrom, decimal?_digitChar small]⟩
    · rename_i large
      have last : n % 10 < 10 := Nat.mod_lt n (by decide)
      obtain ⟨group, value⟩ := ih (n / 10) (by omega)
      refine ⟨⟨by simp, List.forall_mem_append.mpr ⟨group.decimal, single last⟩⟩, ?_⟩
      rw [valueOf, valueFrom] at value ⊢
      rw [List.foldl_append, value, List.foldl_cons, decimal?_digitChar last]
      simp only [List.foldl_nil, Option.getD_some]
      omega

theorem toList_negSucc (n : Nat) :
    (toString (Int.negSucc n)).toList = '-' :: (n + 1).repr.toList := by
  change ("-" ++ (n + 1).repr).toList = _
  rw [String.toList_append]
  rfl

theorem intOfChars?_toString (n : Int) : intOfChars? (toString n).toList = some n := by
  have digits (n : Nat) : Grouped n.repr.toList n := by
    obtain ⟨group, value⟩ := isGroup_toDigits n
    have grouped := Grouped.single group
    rwa [value, ← Nat.toList_repr] at grouped
  cases n with
  | ofNat n =>
    change intOfChars? n.repr.toList = _
    rw [intOfChars?_unsigned (digits n).unsigned, natOfChars?_eq_some_iff.mpr (digits n)]
    rfl
  | negSucc n =>
    rw [toList_negSucc, intOfChars?_minus, natOfChars?_eq_some_iff.mpr (digits (n + 1))]
    rfl

end Partbook.Text
