import Partbook.Text.Lower

/-!
Names in kebab case: a hyphen before each capital from `A` to `Z` that follows a small letter from
`a` to `z` or a digit, and all letters small.
-/
namespace Partbook.Text

def hyphenate (previous : Char) : List Char → List Char
  | [] => []
  | c :: rest =>
    if (previous.isLower || previous.isDigit) && c.isUpper then '-' :: c :: hyphenate c rest
    else c :: hyphenate c rest

def kebab (name : String) : String := lower (String.ofList (hyphenate '-' name.toList))

example : kebab "NoteLength" = "note-length" := by decide +kernel

end Partbook.Text
