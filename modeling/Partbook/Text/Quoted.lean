import Partbook.Text.CharClass

/-!
Quoted text: single quotes, unless the text holds a single quote and no double quote; backslash
escapes for the quote itself, the backslash, line ends, tabs and everything without a visible
form. Long text is abbreviated in the middle.
-/
namespace Partbook.Text

/-- The last `width` hexadecimal digits of `n`, in lower case. -/
def hexDigits : Nat → Nat → List Char
  | 0, _ => []
  | width + 1, n => hexDigits width (n / 16) ++ [Nat.digitChar (n % 16)]

def quoteMark (text : List Char) : Char :=
  if text.contains '\'' && !text.contains '"' then '"' else '\''

def escape (mark c : Char) : List Char :=
  if c == mark || c == '\\' then ['\\', c]
  else if c == '\n' then ['\\', 'n']
  else if c == '\r' then ['\\', 'r']
  else if c == '\t' then ['\\', 't']
  else if isPrintable c then [c]
  else if c.toNat < 0x100 then '\\' :: 'x' :: hexDigits 2 c.toNat
  else if c.toNat < 0x10000 then '\\' :: 'u' :: hexDigits 4 c.toNat
  else '\\' :: 'U' :: hexDigits 8 c.toNat

def quoteChars (text : List Char) : List Char :=
  let mark := quoteMark text
  mark :: text.flatMap (escape mark) ++ [mark]

def quote (text : String) : String := String.ofList (quoteChars text.toList)

/-- Keeps `front` characters at the start and `back` at the end, with an ellipsis between. -/
def elide (front back : Nat) (text : List Char) : List Char :=
  text.take front ++ "...".toList ++ text.drop (text.length - back)

/-- The first 13 and the last 14 characters. Of a text with `n < 14` characters the back end is
its last `14 - n`, for such a text is cut only when escapes make it long. -/
def twoEnds (text : List Char) : List Char :=
  let n := text.length
  text.take 13 ++ text.drop (if n < 14 then 2 * n - 14 else n - 14)

/-- Quoted text of at most 30 characters. What is longer loses its middle, once before it is
quoted and, as escapes may have made it longer again, once after. -/
def quoteShort (text : String) : String :=
  let whole := quoteChars (text.toList.take 30)
  if whole.length ≤ 30 then String.ofList whole
  else String.ofList (elide 13 14 (quoteChars (twoEnds text.toList)))

/-- The text itself if it has at most `limit` characters, else its two ends. -/
def abbreviate (limit : Nat) (text : String) : String :=
  if text.length ≤ limit then text
  else
    let front := (limit - 3) / 2
    String.ofList (elide front (limit - 3 - front) text.toList)

example : quote "it's" = "\"it's\"" := by decide +kernel

end Partbook.Text
