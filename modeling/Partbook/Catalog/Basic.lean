import Partbook.Catalog.Glob
import Partbook.Source.Document
import Partbook.Text.Lower

/-!
Catalogs tell how a file is read. A rule is found by one of its names, or else by what is known of
the file: its name and its media type, which count together, and what is in it, which decides where
they do not. What fits has a weight, a floating-point number.
-/
namespace Partbook
open Source

structure CatalogEntry where
  name : Option String := none
  aliases : List String := []
  /-- Patterns of file names. -/
  filenames : List (String × Float) := []
  mimetypes : List (String × Float) := []
  /-- Properties of the contents. -/
  guesses : List ((String → Bool) × Float) := []

/-- What is known of a file. -/
structure FileTraits where
  filename : Option String := none
  mimetype : Option String := none
  contents : Option String := none

/-- The rules that have been registered, each with its latest entry, in the order of their first
ones. -/
structure Catalog where
  entries : List (StartRule × CatalogEntry) := []

namespace Catalog

/-- A rule that is registered again keeps its place. -/
def register (rule : StartRule) (entry : CatalogEntry) (catalog : Catalog) : Catalog :=
  { entries := put catalog.entries }
where
  put : List (StartRule × CatalogEntry) → List (StartRule × CatalogEntry)
    | [] => [(rule, entry)]
    | (other, known) :: entries =>
      if other = rule then (rule, entry) :: entries else (other, known) :: put entries

def rules (catalog : Catalog) : List StartRule := catalog.entries.map (·.1)

/-- The first rule with an entry that satisfies `p`. -/
def firstWith (catalog : Catalog) (p : CatalogEntry → Bool) : Option StartRule :=
  (catalog.entries.find? fun (_, entry) => p entry).map (·.1)

/-- The name of the language, which stands for its first rule whatever the entry says. -/
def language : String := "alda"

/-- The rule of that name: the exact name of an entry, else an exact alias, else a name or an alias
in whatever case, else the name of the language. -/
def byName (catalog : Catalog) (name : String) : Option StartRule :=
  let small := Text.lower name
  catalog.firstWith (fun entry => entry.name == some name)
  <|> catalog.firstWith (fun entry => entry.aliases.contains name)
  <|> catalog.firstWith (fun entry =>
        (entry.name.toList ++ entry.aliases).any fun known => Text.lower known == small)
  <|> (if small == language then catalog.rules.head? else none)

/-- How much of the contents is looked at. -/
def sampleSize : Nat := 5000

/-- The item with the highest weight, the first of several. -/
def heaviest? {α : Type} : List (α × Float) → Option (α × Float)
  | [] => none
  | item :: items =>
    match heaviest? items with
    | none => some item
    | some other => if item.2 < other.2 then some other else some item

/-- What one trait says about an entry: the highest weight of all that fit, zero if none does. -/
def weight {α : Type} (fits : α → Bool) (known : List (α × Float)) : Float :=
  ((heaviest? (known.filter fun (item, _) => fits item)).map (·.2)).getD 0

/-- What one trait says, entry by entry. A weight of zero says nothing, and so does an empty
trait. -/
def evidence (catalog : Catalog) (trait : Option String)
    (weight : String → CatalogEntry → Float) : List (StartRule × Float) :=
  match trait.filter (· != "") with
  | none => []
  | some text =>
    (catalog.entries.map fun (rule, entry) => (rule, weight text entry)).filter (·.2 != 0)

/-- The weights of two traits, added for the rules that both speak of. The rules of the first trait
come first. -/
def together (first second : List (StartRule × Float)) : List (StartRule × Float) :=
  first.map (fun (rule, weight) => (rule, weight + (second.lookup rule).getD 0))
  ++ second.filter fun (rule, _) => (first.lookup rule).isNone

/-- The rule for a file: the one that its name and its media type speak for with the highest weight
together. What is in the file decides between those of that weight, or between all rules if name and
type say nothing. -/
def byTraits (catalog : Catalog) (traits : FileTraits) : Option StartRule :=
  let named := catalog.evidence traits.filename fun name entry =>
    weight (Glob.describes · name) entry.filenames
  let typed := catalog.evidence traits.mimetype fun mimetype entry =>
    weight (· == mimetype) entry.mimetypes
  let guessed := catalog.evidence traits.contents fun text entry =>
    weight (fun holds => holds (text.take sampleSize).toString) entry.guesses
  let outer := together named typed
  let candidates :=
    match heaviest? outer with
    | none => guessed
    | some (_, highest) =>
      (outer.filter fun (_, weight) => weight == highest).map fun (rule, _) =>
        (rule, (guessed.lookup rule).getD 0)
  (heaviest? candidates).map (·.1)

/-- The rule of that name or, without a name, the rule for a file. -/
def find (catalog : Catalog) (name : Option String) (traits : FileTraits) : Option StartRule :=
  match name.filter (· != "") with
  | some name => catalog.byName name
  | none => catalog.byTraits traits

end Catalog

end Partbook
