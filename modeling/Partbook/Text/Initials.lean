import Partbook.Text.CharClass

/-!
Initials: the first characters of the words of a text, a word being a longest run of word
characters.
-/
namespace Partbook.Text

/-- The first characters of the words with something behind them that satisfies `followed`. While
`inside` holds, the text goes on with a word that has been looked at. -/
def initialsFrom (followed : List Char → Bool) (inside : Bool) : List Char → List Char
  | [] => []
  | c :: rest =>
    if isWord c then
      if !inside && followed (rest.dropWhile isWord) then c :: initialsFrom followed true rest
      else initialsFrom followed true rest
    else initialsFrom followed false rest

def initials (text : String) : String :=
  String.ofList (initialsFrom (fun _ => true) false text.toList)

/-- The initials of the words directly before a hyphen. -/
def hyphenInitials (text : String) : String :=
  String.ofList (initialsFrom (fun rest => rest.head? == some '-') false text.toList)

example : initials "lead-horn" = "lh" := by decide +kernel

example : hyphenInitials "tuba-bass-1" = "tb" := by decide +kernel

end Partbook.Text
