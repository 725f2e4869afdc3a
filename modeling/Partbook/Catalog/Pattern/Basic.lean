import Partbook.Text.CharClass

/-!
Patterns of text, for what is looked for in a file. A pattern leads from sites of a text to the
sites at which something it describes may end.
-/
namespace Partbook.Catalog
open Text

/-- A site between two characters of a text: what is before it, the last character first, and what
is after it. -/
structure Site where
  pos : Nat
  before : List Char
  after : List Char

namespace Site

def next? (site : Site) : Option (Char × Site) :=
  match site.after with
  | [] => none
  | c :: after => some (c, ⟨site.pos + 1, c :: site.before, after⟩)

/-- The site and all after it. -/
def onwards (pos : Nat) (before : List Char) : List Char → List Site
  | [] => [⟨pos, before, []⟩]
  | c :: after => ⟨pos, before, c :: after⟩ :: onwards (pos + 1) (c :: before) after

def isStart (site : Site) : Bool := site.before.isEmpty

def isEnd (site : Site) : Bool := site.after.isEmpty

/-- The end, or the site before a line feed that ends the text. -/
def isLastLineEnd (site : Site) : Bool := site.isEnd || site.after == ['\n']

def isLineStart (site : Site) : Bool := site.isStart || site.before.head? == some '\n'

def isLineEnd (site : Site) : Bool := site.isEnd || site.after.head? == some '\n'

/-- A word begins or ends here. -/
def isWordEdge (site : Site) : Bool :=
  site.before.head?.any isWord != site.after.head?.any isWord

end Site

inductive Pattern where
  /-- The empty stretch, which is everywhere. -/
  | nothing
  | char (accepts : Char → Bool)
  | edge (holds : Site → Bool)
  | both (first second : Pattern)
  | either (first second : Pattern)
  /-- The item `least` times and then at most `more` times. -/
  | repeated (item : Pattern) (least : Nat) (more : Option Nat)
  /-- The item begins here, or does not. -/
  | ahead (wanted : Bool) (item : Pattern)
  /-- The item ends here, or does not. -/
  | behind (wanted : Bool) (item : Pattern)

namespace Pattern

/-- The sites that have not been seen, each once. -/
def fresh (seen : List Site) : List Site → List Site
  | [] => []
  | site :: sites =>
    if seen.any (·.pos == site.pos) || sites.any (·.pos == site.pos) then fresh seen sites
    else site :: fresh seen sites

/-- All that is reached from the frontier in at most `steps`, added to what has been seen. -/
def spread (step : List Site → List Site) : Nat → List Site → List Site → List Site
  | 0, seen, _ => seen
  | steps + 1, seen, frontier =>
    match fresh seen (step frontier) with
    | [] => seen
    | found => spread step steps (found ++ seen) found

def iterate (step : List Site → List Site) : Nat → List Site → List Site
  | 0, sites => sites
  | n + 1, sites => iterate step n (step sites)

/-- The sites of the text at which the pattern may end if it begins at one of the given ones. A
repetition without bound goes on until it reaches no new site, and there are no more sites than
characters and one. -/
def reach (text : List Char) : Pattern → List Site → List Site
  | nothing, sites => sites
  | char accepts, sites =>
    sites.filterMap fun site =>
      match site.next? with
      | some (c, next) => if accepts c then some next else none
      | none => none
  | edge holds, sites => sites.filter holds
  | both first second, sites => reach text second (reach text first sites)
  | either first second, sites => fresh [] (reach text first sites ++ reach text second sites)
  | repeated item least more, sites =>
    let begun := iterate (reach text item) least sites
    spread (reach text item) (more.getD (text.length + 1)) begun begun
  | ahead wanted item, sites => sites.filter fun site => (reach text item [site]).isEmpty != wanted
  | behind wanted item, sites =>
    let ends := reach text item (Site.onwards 0 [] text)
    sites.filter fun site => ends.any (·.pos == site.pos) == wanted

/-- The pattern describes some stretch of the text. -/
def occursIn (pattern : Pattern) (text : String) : Bool :=
  !(reach text.toList pattern (Site.onwards 0 [] text.toList)).isEmpty

end Pattern

end Partbook.Catalog
