import Partbook.Text.Quoted

/-!
Plain data: what an element can hold besides its children, and the constants of forms. A datum has
a source form (texts quoted), a bare form (a text is itself) and a short form with long parts
elided.
-/
namespace Partbook
open Text

inductive Datum where
  | text (text : String)
  | int (n : Int)
  | truth (value : Bool)
  | nothing
  /-- A named and numbered thing; equal to the pair of its name and number. -/
  | numbered (name number : Datum)
  | tuple (items : List Datum)
  /-- A list in square brackets. -/
  | list (items : List Datum)
  /-- A node in the place of a datum: the line that shows it, and what is below it. -/
  | node (shown : String) (below : List Datum)
deriving Repr

namespace Datum

mutual

/-- The same datum. -/
def equal : Datum → Datum → Bool
  | text s, text t => s == t
  | int m, int n => m == n
  | truth b, truth c => b == c
  | nothing, nothing => true
  | numbered name number, numbered name' number' => name.equal name' && number.equal number'
  | tuple items, tuple items' => equalAll items items'
  | list items, list items' => equalAll items items'
  | node shown below, node shown' below' => shown == shown' && equalAll below below'
  | _, _ => false

def equalAll : List Datum → List Datum → Bool
  | [], [] => true
  | item :: items, item' :: items' => item.equal item' && equalAll items items'
  | _, _ => false

end

mutual

theorem equal_iff : ∀ a b : Datum, a.equal b = true ↔ a = b
  | text _, b | int _, b | truth _, b | nothing, b => by cases b <;> simp [equal]
  | numbered name number, b => by
    cases b <;> simp [equal, equal_iff name, equal_iff number]
  | tuple items, b | list items, b => by cases b <;> simp [equal, equalAll_iff items]
  | node shown below, b => by cases b <;> simp [equal, equalAll_iff below]

theorem equalAll_iff : ∀ items items' : List Datum, equalAll items items' = true ↔ items = items'
  | [], items' => by cases items' <;> simp [equalAll]
  | item :: items, items' => by
    cases items' <;> simp [equalAll, equal_iff item, equalAll_iff items]

end

instance : DecidableEq Datum := fun a b => decidable_of_iff _ (equal_iff a b)

/-- Truth values count as one and zero. -/
def int? : Datum → Option Int
  | int n => some n
  | truth value => some value.toNat
  | _ => none

/-- The items of a tuple. Something numbered has two. -/
def items? : Datum → Option (List Datum)
  | numbered name number => some [name, number]
  | tuple items => some items
  | _ => none

/-- How much a datum holds, if it is of a kind that holds anything. -/
def size? : Datum → Option Nat
  | text s => some s.length
  | numbered .. => some 2
  | tuple items | list items | node _ items => some items.length
  | _ => none

mutual

/-- Nothing that can be changed is in it: it can be looked up. -/
def isFixed : Datum → Bool
  | list _ => false
  | numbered name number => name.isFixed && number.isFixed
  | tuple items => allFixed items
  | _ => true

def allFixed : List Datum → Bool
  | [] => true
  | item :: items => item.isFixed && allFixed items

end

/-- Empty texts, tuples and lists, zero, falsehood and nothing at all. -/
def isVoid : Datum → Bool
  | text s => s.isEmpty
  | int n => n == 0
  | truth value => !value
  | nothing => true
  | numbered .. | node .. => false
  | tuple items | list items => items.isEmpty

def commaSeparated (items : List String) : String := ", ".intercalate items

/-- A tuple of one item keeps a comma. -/
def inParentheses (items : List String) : String :=
  match items with
  | [item] => "(" ++ item ++ ",)"
  | items => "(" ++ commaSeparated items ++ ")"

mutual

/-- The source form. -/
def quoted : Datum → String
  | text s => quote s
  | int n => toString n
  | truth true => "True"
  | truth false => "False"
  | nothing => "None"
  | numbered name number => "Instance(name=" ++ name.quoted ++ ", number=" ++ number.quoted ++ ")"
  | tuple items => inParentheses (quotedAll items)
  | list items => "[" ++ commaSeparated (quotedAll items) ++ "]"
  | node shown _ => shown

def quotedAll : List Datum → List String
  | [] => []
  | item :: items => item.quoted :: quotedAll items

end

/-- The bare form. -/
def bare : Datum → String
  | text s => s
  | numbered name number => name.bare ++ "-" ++ number.bare
  | datum => datum.quoted

mutual

/-- The short form. Tuples and lists show six items and, at the last of `depth` levels, none. -/
def short (depth : Nat) : Datum → String
  | text s => quoteShort s
  | int n => abbreviate 40 (toString n)
  | tuple items =>
    match depth with
    | 0 => if items.isEmpty then "()" else "(...)"
    | depth + 1 =>
      if items.length ≤ 6 then inParentheses (shortAll depth items)
      else inParentheses ((shortAll depth items).take 6 ++ ["..."])
  | list items =>
    match depth with
    | 0 => if items.isEmpty then "[]" else "[...]"
    | depth + 1 =>
      if items.length ≤ 6 then "[" ++ commaSeparated (shortAll depth items) ++ "]"
      else "[" ++ commaSeparated ((shortAll depth items).take 6 ++ ["..."]) ++ "]"
  | datum => abbreviate 30 datum.quoted

def shortAll (depth : Nat) : List Datum → List String
  | [] => []
  | item :: items => item.short depth :: shortAll depth items

end

mutual

/-- Equality of data: by value, numbers and truth values alike. -/
def same : Datum → Datum → Bool
  | text s, text t => s == t
  | nothing, nothing => true
  | numbered name number, other =>
    match other.items? with
    | some [name', number'] => name.same name' && number.same number'
    | _ => false
  | tuple items, other =>
    match other.items? with
    | some items' => sameAll items items'
    | none => false
  | list items, list items' => sameAll items items'
  | node shown below, node shown' below' => shown == shown' && sameAll below below'
  | int n, other => other.int? == some n
  | truth value, other => other.int? == some (value.toNat : Int)
  | _, _ => false

def sameAll : List Datum → List Datum → Bool
  | [], [] => true
  | item :: items, item' :: items' => item.same item' && sameAll items items'
  | _, _ => false

end

end Datum

end Partbook
