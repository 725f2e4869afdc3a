import Partbook.Datum

/-!
Forms: the expressions that music is handed on as. A form is a constant, a symbol, or a head with
arguments in parentheses. Inside parentheses a text stands in double quotes with only those and the
backslash escaped, so that it is never taken for anything else.
-/
namespace Partbook

inductive Form where
  | atom (value : Datum)
  | symbol (name : String)
  | apply (head : Form) (args : List Form)

namespace Form

/-- A character between double quotes. -/
def guard (c : Char) : List Char := if c == '"' || c == '\\' then ['\\', c] else [c]

def doubleQuote (text : String) : String :=
  String.ofList ('"' :: text.toList.flatMap guard ++ ['"'])

mutual

/-- A form as it stands between parentheses. -/
def inner : Form → String
  | atom (.text s) => doubleQuote s
  | atom value => value.quoted
  | symbol name => name
  | apply head args => "(" ++ head.inner ++ innerAll args ++ ")"

def innerAll : List Form → String
  | [] => ""
  | form :: forms => " " ++ form.inner ++ innerAll forms

end

/-- A form as it stands alone. -/
def shown : Form → String
  | atom value => value.quoted
  | form => form.inner

/-- A form where a text stands for itself. -/
def plain : Form → String
  | atom value => value.bare
  | form => form.inner

/-- Truth values count as one and zero. -/
def int? : Form → Option Int
  | atom value => value.int?
  | _ => none

example : (apply (symbol "pitch") [atom (.text "c")]).shown = "(pitch \"c\")" := by decide +kernel

end Form

end Partbook
