import Partbook.Catalog.Pattern.Basic
import Partbook.Text.Lower

/-!
Patterns as they are written: as regular expressions, without references to groups. Since only the
existence of a stretch counts, greedy and lazy repetitions are the same.
-/
namespace Partbook.Catalog.Pattern
open Text

structure Flags where
  anyCase : Bool := false
  /-- The text begins and ends at every line. -/
  manyLines : Bool := false
  /-- The point stands for a line feed too. -/
  wholeText : Bool := false

namespace Flags

def set (value : Bool) (flags : Flags) : Char → Option Flags
  | 'i' => some { flags with anyCase := value }
  | 'm' => some { flags with manyLines := value }
  | 's' => some { flags with wholeText := value }
  | 'u' => if value then some flags else none
  | _ => none

/-- Flags between brackets, behind the question mark: what is set, and what is unset behind a
dash. -/
def ofText? (flags : Flags) (text : List Char) : Option (Flags × List Char) := do
  let flags ← (text.takeWhile Char.isAlpha).foldlM (set true) flags
  match text.dropWhile Char.isAlpha with
  | '-' :: text =>
    return (← (text.takeWhile Char.isAlpha).foldlM (set false) flags, text.dropWhile Char.isAlpha)
  | text => return (flags, text)

end Flags

/-- The character, its small form and the capitals of that. -/
def caseVariants (c : Char) : List Char :=
  let small := (lowerChar c).headD c
  let capitals := capitalRuns.filterMap fun run =>
    let capital := Char.ofNat ((small.toNat : Int) - run.shift).toNat
    if run.holds capital then some capital else none
  c :: small :: capitals

/-- Accepts what is accepted in another case too, if the flags say so. -/
def Flags.widen (flags : Flags) (accepts : Char → Bool) (c : Char) : Bool :=
  if flags.anyCase then (caseVariants c).any accepts else accepts c

def literal (flags : Flags) (c : Char) : Pattern := char (flags.widen (· == c))

def hexDigit? (c : Char) : Option Nat :=
  let c := c.toLower
  if '0' ≤ c ∧ c ≤ '9' then some (c.toNat - '0'.toNat)
  else if 'a' ≤ c ∧ c ≤ 'f' then some (c.toNat - 'a'.toNat + 10)
  else none

def hexValue? (digits : List Char) : Option Nat :=
  digits.foldlM (fun n c => (hexDigit? c).map (16 * n + ·)) 0

/-- The classes of characters that have a letter of their own. -/
def classOf? : Char → Option (Char → Bool)
  | 'd' => some isDecimal
  | 'D' => some (!isDecimal ·)
  | 's' => some isBlank
  | 'S' => some (!isBlank ·)
  | 'w' => some isWord
  | 'W' => some (!isWord ·)
  | _ => none

/-- A character in a given number of hexadecimal digits. -/
def coded? (width : Nat) (text : List Char) : Option (Char × List Char) := do
  let digits := text.take width
  if digits.length = width then return (Char.ofNat (← hexValue? digits), text.drop width) else none

/-- The character that an escape behind a backslash stands for. -/
def escaped? : List Char → Option (Char × List Char)
  | 'n' :: text => some ('\n', text)
  | 't' :: text => some ('\t', text)
  | 'r' :: text => some ('\r', text)
  | 'f' :: text => some ('\x0c', text)
  | 'v' :: text => some ('\x0b', text)
  | 'a' :: text => some ('\x07', text)
  | '0' :: text => some ('\x00', text)
  | 'x' :: text => coded? 2 text
  | 'u' :: text => coded? 4 text
  | 'U' :: text => coded? 8 text
  | c :: text => if c.isAlphanum then none else some (c, text)
  | [] => none

/-- One end of a range between brackets, or a class. -/
def member? : List Char → Option ((Char ⊕ (Char → Bool)) × List Char)
  | '\\' :: c :: text =>
    match classOf? c with
    | some accepts => some (.inr accepts, text)
    | none =>
      if c == 'b' then some (.inl '\x08', text)
      else (escaped? (c :: text)).map fun (c, text) => (.inl c, text)
  | c :: text => some (.inl c, text)
  | [] => none

/-- What stands between brackets, up to the closing one. -/
def members? (first : Bool) : Nat → List Char → Option ((Char → Bool) × List Char)
  | 0, _ => none
  | fuel + 1, text =>
    if !first && text.head? == some ']' then some (fun _ => false, text.drop 1)
    else do
      let (low, text) ← member? text
      let (accepts, text) ← match low, text with
        | .inl low, '-' :: ']' :: text => some ((fun c => c == low), '-' :: ']' :: text)
        | .inl low, '-' :: text => do
          match ← member? text with
          | (.inl high, text) =>
            if low ≤ high then some ((fun c => decide (low ≤ c) && decide (c ≤ high)), text)
            else none
          | (.inr _, _) => none
        | .inl low, text => some ((fun c => c == low), text)
        | .inr accepts, text => some (accepts, text)
      let (others, text) ← members? false fuel text
      return (fun c => accepts c || others c, text)

def natural? (text : List Char) : Option Nat × List Char :=
  let digits := text.takeWhile Char.isDigit
  ((String.ofList digits).toNat?, text.dropWhile Char.isDigit)

/-- How often an item is repeated, if it says so: least and, beyond that, most. -/
def times? : List Char → Option ((Nat × Option Nat) × List Char)
  | '*' :: text => some ((0, none), text)
  | '+' :: text => some ((1, none), text)
  | '?' :: text => some ((0, some 1), text)
  | '{' :: text =>
    match natural? text with
    | (some n, '}' :: text) => some ((n, some 0), text)
    | (least, ',' :: text) =>
      match natural? text with
      | (none, '}' :: text) => some ((least.getD 0, none), text)
      | (some most, '}' :: text) => some ((least.getD 0, some (most - least.getD 0)), text)
      | _ => none
    | _ => none
  | _ => none

mutual

/-- Alternatives. -/
def alternatives? (flags : Flags) : Nat → List Char → Option (Pattern × List Char)
  | 0, _ => none
  | fuel + 1, text => do
    match ← sequence? flags fuel text with
    | (first, '|' :: text) =>
      let (second, text) ← alternatives? flags fuel text
      return (either first second, text)
    | found => return found

/-- Items one after the other. -/
def sequence? (flags : Flags) : Nat → List Char → Option (Pattern × List Char)
  | 0, _ => none
  | fuel + 1, text =>
    match text with
    | [] | '|' :: _ | ')' :: _ => some (nothing, text)
    | text => do
      let (item, text) ← item? flags fuel text
      let (item, text) := match times? text with
        | some ((least, more), '?' :: text) => (repeated item least more, text)
        | some ((least, more), text) => (repeated item least more, text)
        | none => (item, text)
      let (rest, text) ← sequence? flags fuel text
      return (both item rest, text)

def item? (flags : Flags) : Nat → List Char → Option (Pattern × List Char)
  | 0, _ => none
  | fuel + 1, text =>
    match text with
    | '.' :: text => some (char fun c => flags.wholeText || c != '\n', text)
    | '^' :: text =>
      some (edge (if flags.manyLines then Site.isLineStart else Site.isStart), text)
    | '$' :: text =>
      some (edge (if flags.manyLines then Site.isLineEnd else Site.isLastLineEnd), text)
    | '*' :: _ | '+' :: _ | '?' :: _ => none
    | '[' :: '^' :: text => do
      let (accepts, text) ← members? true fuel text
      return (char (!flags.widen accepts ·), text)
    | '[' :: text => do
      let (accepts, text) ← members? true fuel text
      return (char (flags.widen accepts), text)
    | '(' :: '?' :: ':' :: text => group? flags fuel id text
    | '(' :: '?' :: '=' :: text => group? flags fuel (ahead true) text
    | '(' :: '?' :: '!' :: text => group? flags fuel (ahead false) text
    | '(' :: '?' :: '<' :: '=' :: text => group? flags fuel (behind true) text
    | '(' :: '?' :: '<' :: '!' :: text => group? flags fuel (behind false) text
    | '(' :: '?' :: 'P' :: '<' :: text => group? flags fuel id ((text.dropWhile (· != '>')).drop 1)
    | '(' :: '?' :: text => do
      match ← flags.ofText? text with
      | (flags, ':' :: text) => group? flags fuel id text
      | _ => none
    | '(' :: text => group? flags fuel id text
    | '\\' :: 'A' :: text => some (edge Site.isStart, text)
    | '\\' :: 'Z' :: text => some (edge Site.isEnd, text)
    | '\\' :: 'b' :: text => some (edge Site.isWordEdge, text)
    | '\\' :: 'B' :: text => some (edge (!·.isWordEdge), text)
    | '\\' :: c :: text =>
      match classOf? c with
      | some accepts => some (char accepts, text)
      | none => (escaped? (c :: text)).map fun (c, text) => (literal flags c, text)
    | c :: text => some (literal flags c, text)
    | [] => none

/-- A group behind its opening bracket. -/
def group? (flags : Flags) (fuel : Nat) (make : Pattern → Pattern) (text : List Char) :
    Option (Pattern × List Char) :=
  match fuel with
  | 0 => none
  | fuel + 1 => do
    match ← alternatives? flags fuel text with
    | (item, ')' :: text) => return (make item, text)
    | _ => none

end

/-- Flags in brackets of their own before all else hold for the whole pattern. -/
def leadingFlags (flags : Flags) : Nat → List Char → Flags × List Char
  | 0, text => (flags, text)
  | fuel + 1, text =>
    match text with
    | '(' :: '?' :: inside =>
      match flags.ofText? inside with
      | some (flags, ')' :: text) => leadingFlags flags fuel text
      | _ => (flags, text)
    | _ => (flags, text)

/-- The pattern that a text describes, if it is well formed. -/
def ofText? (text : String) : Option Pattern :=
  let (flags, inside) := leadingFlags {} text.length text.toList
  match alternatives? flags (4 * text.length + 4) inside with
  | some (pattern, []) => some pattern
  | _ => none

end Partbook.Catalog.Pattern
