import Partbook.Datum

/-!
Who plays. An instance is a numbered instrument. A roster remembers which instances a name or a
nickname stands for, and so which numbers have been given out for every instrument.
-/
namespace Partbook

/-- Names are data. Those that are read from a text are texts. -/
structure Instance where
  name : Datum
  number : Int
deriving DecidableEq, Repr

namespace Instance

def datum (inst : Instance) : Datum := .numbered inst.name (.int inst.number)

def shown (inst : Instance) : String := inst.datum.bare

end Instance

/-- Names with what they stand for, in the order in which they were first bound. -/
abbrev Bindings := List (Datum × List Instance)

namespace Bindings

def meaning? (bindings : Bindings) (name : Datum) : Option (List Instance) := bindings.lookup name

/-- A name that is bound again keeps its place. -/
def bind (name : Datum) (instances : List Instance) : Bindings → Bindings
  | [] => [(name, instances)]
  | (other, bound) :: bindings =>
    if other = name then (other, instances) :: bindings
    else (other, bound) :: bind name instances bindings

/-- Binds each of the names in turn. -/
def bindAll (entries : List (Datum × List Instance)) (bindings : Bindings) : Bindings :=
  entries.foldl (fun bindings (name, instances) => bindings.bind name instances) bindings

def names (bindings : Bindings) : List Datum := bindings.map (·.1)

/-- All instances that some name stands for, as often as they occur. -/
def instances (bindings : Bindings) : List Instance := bindings.flatMap (·.2)

theorem meaning?_bind (bindings : Bindings) (name other : Datum) (instances : List Instance) :
    (bindings.bind name instances).meaning? other =
      if other = name then some instances else bindings.meaning? other := by
  induction bindings with
  | nil => by_cases same : other = name <;> simp [bind, meaning?, same]
  | cons entry bindings ih =>
    obtain ⟨key, bound⟩ := entry
    simp only [meaning?] at ih ⊢
    by_cases here : key = name
    · by_cases same : other = name
      · simp [bind, here, same]
      · simp [bind, here, same, List.lookup_cons, beq_false_of_ne same]
    · by_cases there : other = key
      · simp [bind, here, there]
      · simp [bind, here, List.lookup_cons, beq_false_of_ne there, ih]

end Bindings

structure Roster where
  table : Bindings := []
  nicknames : Bindings := []
deriving DecidableEq, Repr

namespace Roster

/-- The highest number of the instrument in the table, zero if it does not occur there. -/
def allocated (roster : Roster) (name : Datum) : Int :=
  ((roster.table.instances.filter (·.name = name)).map (·.number)).max?.getD 0

/-- The instances that a name in a call stands for. Without a nickname in the call these are the
ones that the name is bound to, or the first of its instrument. A nickname calls for a new instance,
unless the name is itself a nickname. -/
def assign (roster : Roster) (nickname : Option Datum) (name : Datum) : List Instance :=
  match nickname with
  | none =>
    match roster.table.meaning? name with
    | some (inst :: more) => inst :: more
    | _ => [⟨name, 1⟩]
  | some _ =>
    match roster.nicknames.meaning? name with
    | some instances => instances
    | none => [⟨name, roster.allocated name + 1⟩]

end Roster

end Partbook
