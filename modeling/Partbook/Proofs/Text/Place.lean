import Partbook.Text.Place
import Mathlib.Data.List.TakeWhile

/-!
Places and lines. The place of a character names a line of the text and a column on this line, and
what stands before it is all of the lines before, with their ends, and the columns before.
-/
namespace Partbook.Text

def lines (text : List Char) : List (List Char) := text.splitOn '\n'

def extent : List (List Char) → Nat
  | [] => 0
  | line :: lines => line.length + 1 + extent lines

/-- The place is that of a character of the text, the one at `pos`. -/
structure Place.Marks (place : Place) (text : List Char) (pos : Nat) : Prop where
  line : 1 ≤ place.line ∧ place.line ≤ (lines text).length
  column : 1 ≤ place.column ∧ place.column ≤ ((lines text).getD (place.line - 1) []).length
  sum : extent ((lines text).take (place.line - 1)) + (place.column - 1) = pos

theorem lines_cons (c : Char) (text : List Char) :
    lines (c :: text) =
      if c = '\n' then [] :: lines text else (lines text).modifyHead (c :: ·) := by
  rw [lines, List.splitOn_cons_eq_if_modifyHead]
  simp [lines]

theorem lines_ne_nil (text : List Char) : lines text ≠ [] := List.splitOn_ne_nil '\n' text

theorem length_lines (text : List Char) : (lines text).length = text.count '\n' + 1 := by
  induction text with
  | nil => rfl
  | cons c text ih =>
    rw [lines_cons, List.count_cons]
    split
    · rename_i ends
      simp [ends, ih]
    · rename_i other
      simp [other, ih]

theorem extent_lines (text : List Char) : extent (lines text) = text.length + 1 := by
  induction text with
  | nil => rfl
  | cons c text ih =>
    rw [lines_cons]
    split
    · simp only [extent, ih, List.length_nil, List.length_cons]
      omega
    · obtain ⟨line, later, parts⟩ := List.exists_cons_of_ne_nil (lines_ne_nil text)
      rw [parts] at ih ⊢
      simp only [extent, List.modifyHead_cons, List.length_cons] at ih ⊢
      omega

theorem lines_of_visible {start : List Char} (same : '\n' ∉ start) {c : Char} (visible : c ≠ '\n')
    (rest : List Char) :
    ∃ more later, lines (start ++ c :: rest) = (start ++ c :: more) :: later := by
  induction start with
  | nil =>
    obtain ⟨more, later, parts⟩ := List.exists_cons_of_ne_nil (lines_ne_nil rest)
    refine ⟨more, later, ?_⟩
    rw [List.nil_append, lines_cons, if_neg visible, parts]
    rfl
  | cons d start ih =>
    rw [List.mem_cons, not_or] at same
    obtain ⟨more, later, parts⟩ := ih same.2
    refine ⟨more, later, ?_⟩
    rw [List.cons_append, lines_cons, if_neg (Ne.symm same.1), parts]
    rfl

theorem exists_onLine (before : List Char) : ∃ onLine,
    (before.reverse.takeWhile (· != '\n')).length = onLine.length ∧ '\n' ∉ onLine ∧
      (before = onLine ∨ ∃ earlier, before = earlier ++ '\n' :: onLine) := by
  refine ⟨(before.reverse.takeWhile (· != '\n')).reverse, by simp, ?_, ?_⟩
  · intro within
    simpa using List.mem_takeWhile_imp (List.mem_reverse.mp within)
  · have whole := List.takeWhile_append_dropWhile (p := (· != '\n')) (l := before.reverse)
    cases rest : before.reverse.dropWhile (· != '\n') with
    | nil =>
      rw [rest, List.append_nil] at whole
      rw [whole, List.reverse_reverse]
      exact .inl rfl
    | cons c rest' =>
      have ends := List.head_dropWhile_not (p := (· != '\n')) (l := before.reverse) (by simp [rest])
      simp only [rest, List.head_cons, bne_eq_false_iff_eq] at ends
      rw [rest, ends] at whole
      refine .inr ⟨rest'.reverse, ?_⟩
      simpa using (congrArg List.reverse whole).symm

theorem Place.marks_ofPos {text : String} {before rest : List Char} {c : Char}
    (parts : text.toList = before ++ c :: rest) (visible : c ≠ '\n') :
    (Place.ofPos text before.length).Marks text.toList before.length := by
  have front : Text.before text.toList before.length = before := by
    rw [Text.before, if_neg (by omega), Int.toNat_natCast, parts, List.take_left]
  obtain ⟨onLine, length, same, split⟩ := exists_onLine before
  obtain ⟨more, later, line⟩ := lines_of_visible same visible rest
  have place : Place.ofPos text before.length =
      ⟨before.count '\n' + 1, onLine.length + 1⟩ := by
    have short : onLine.length ≤ before.length := by
      rcases split with rfl | ⟨earlier, rfl⟩
      · exact Nat.le_refl _
      · rw [List.length_append, List.length_cons]
        omega
    simp only [Place.ofPos, front, length, Place.mk.injEq, true_and]
    omega
  have first : (1 : Int) ≤ onLine.length + 1 := by omega
  have long : (onLine.length + 1 : Int) ≤ (onLine ++ c :: more).length := by
    rw [List.length_append, List.length_cons]
    omega
  rw [place, parts]
  rcases split with rfl | ⟨earlier, rfl⟩
  · -- the character stands on the first line
    have none : before.count '\n' = 0 := List.count_eq_zero.mpr same
    constructor
    · simp [line, none]
    · rw [none, line]
      exact ⟨first, long⟩
    · simp [none, extent]
  · rw [List.append_assoc, List.cons_append]
    have all : lines (earlier ++ '\n' :: (onLine ++ c :: rest)) =
        lines earlier ++ (onLine ++ c :: more) :: later :=
      (List.splitOn_append_cons_self earlier _).trans (congrArg (lines earlier ++ ·) line)
    have count : (earlier ++ '\n' :: onLine).count '\n' = (lines earlier).length := by
      simp [length_lines, List.count_eq_zero.mpr same]
    constructor
    · simp [all, count]
    · have here : (lines earlier ++ (onLine ++ c :: more) :: later).getD
          (lines earlier).length [] = onLine ++ c :: more := by
        simp
      rw [all, count, Nat.add_sub_cancel, here]
      exact ⟨first, long⟩
    · have total := extent_lines earlier
      simp only [all, count, Nat.add_sub_cancel, List.take_left, total, List.length_append,
        List.length_cons]
      omega

end Partbook.Text
