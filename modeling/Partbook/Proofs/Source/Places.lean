import Partbook.Proofs.Source.Progress

namespace Partbook.Source

open Cursor

def between (text : List Char) (start stop : Nat) : List Char :=
  (text.drop start).take (stop - start)

structure Cursor.On (text : List Char) (cursor : Cursor) : Prop where
  rest : cursor.rest = text.drop cursor.pos
  within : cursor.pos ≤ text.length

variable {text : List Char} {cursor after : Cursor}

theorem Cursor.On.passes {valid : Prop} (on : On text cursor)
    (passes : Passes valid cursor after) : On text after := by
  obtain ⟨taken, parts, pos, -⟩ := passes
  have behind : text.drop cursor.pos = taken ++ after.rest := on.rest ▸ parts
  have long := congrArg List.length behind
  rw [List.length_drop, List.length_append] at long
  have within := on.within
  refine ⟨?_, by omega⟩
  rw [pos, ← List.drop_drop, behind, List.drop_left]

theorem Cursor.Passes.pos_le {valid : Prop} (passes : Passes valid cursor after) :
    cursor.pos ≤ after.pos := by
  obtain ⟨taken, -, pos, -⟩ := passes
  omega

theorem Cursor.Advances.pos_lt {valid : Prop} (advances : Advances valid cursor after) :
    cursor.pos < after.pos := by
  obtain ⟨⟨taken, parts, pos, -⟩, shorter⟩ := advances
  rw [parts, List.length_append] at shorter
  omega

theorem Cursor.On.of_mem_many {α : Type} {step : Cursor → Option (α × Cursor)} {valid : α → Prop}
    (passes : ∀ cursor item after, step cursor = some (item, after) →
      Passes (valid item) cursor after) (on : On text cursor) :
    ∀ item ∈ (cursor.many step).1, ∃ here after, On text here ∧ step here = some (item, after) := by
  induction cursor using many.induct step with
  | case1 cursor fails =>
    rw [many_of_none fails]
    simp
  | case2 cursor item after read shorter ih =>
    rw [many, read]
    simp only [shorter, if_true, List.forall_mem_cons]
    exact ⟨⟨cursor, after, on, read⟩, ih (on.passes (passes cursor item after read))⟩
  | case3 cursor item after read longer =>
    rw [many, read]
    simp only [longer, if_false, List.forall_mem_singleton]
    exact ⟨cursor, after, on, read⟩

theorem eq_between {taken : List Char} {start stop : Nat} (forward : start ≤ stop)
    (within : stop ≤ text.length) (parts : text.drop start = taken ++ text.drop stop) :
    taken = between text start stop := by
  have long := congrArg List.length parts
  rw [List.length_drop, List.length_append, List.length_drop] at long
  have same : stop - start = taken.length := by omega
  rw [between, parts, same, List.take_left]

end Partbook.Source
