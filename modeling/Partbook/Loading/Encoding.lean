/-!
Text in bytes. The encodings differ in how many bytes a character takes and in what they refuse.
-/
namespace Partbook

inductive Encoding where
  | utf8
  /-- With or without a mark at the beginning, which is no part of the text. -/
  | utf8Marked
  | ascii
  | latin1
  | latin9
  | windows1252
  | utf16 (bigEndian : Bool)
  /-- A mark at the beginning tells the order of the bytes. -/
  | utf16Marked
  | utf32 (bigEndian : Bool)
  /-- A mark at the beginning tells the order of the bytes. -/
  | utf32Marked
deriving DecidableEq, Repr

inductive DecodeError where
  /-- Some bytes stand for no character. -/
  | malformed
  /-- The mark that tells the order of the bytes is missing. -/
  | unmarked
deriving DecidableEq, Repr

namespace Encoding

/-- Letters, digits and dots in small letters, with one hyphen for all that stands between. -/
def spelling (name : String) : String :=
  let joined := name.toLower.toList.foldr (fun c rest =>
    if c.isAlphanum || c == '.' then c :: rest
    else match rest with
      | [] | '-' :: _ => rest
      | _ => '-' :: rest) []
  String.ofList (joined.dropWhile (· == '-'))

/-- The encoding of that name. Case does not matter, and an underscore is as good as a hyphen. -/
def ofName? (name : String) : Option Encoding :=
  match spelling name with
  | "utf-8" | "utf8" | "u8" | "utf" => some utf8
  | "utf-8-sig" => some utf8Marked
  | "ascii" | "us-ascii" | "us" | "646" => some ascii
  | "latin-1" | "latin1" | "iso-8859-1" | "iso8859-1" | "iso8859" | "8859" | "latin" | "l1"
  | "cp819" => some latin1
  | "latin9" | "iso-8859-15" | "iso8859-15" | "l9" => some latin9
  | "windows-1252" | "cp1252" | "1252" => some windows1252
  | "utf-16" | "utf16" | "u16" => some utf16Marked
  | "utf-16-le" | "utf-16le" => some (utf16 false)
  | "utf-16-be" | "utf-16be" => some (utf16 true)
  | "utf-32" | "utf32" | "u32" => some utf32Marked
  | "utf-32-le" | "utf-32le" => some (utf32 false)
  | "utf-32-be" | "utf-32be" => some (utf32 true)
  | _ => none

def number (bigEndian : Bool) (bytes : List UInt8) : Nat :=
  (if bigEndian then bytes else bytes.reverse).foldl (fun n byte => n * 256 + byte.toNat) 0

/-- Pairs of bytes as numbers. A byte too many is refused. -/
def pairs (bigEndian : Bool) : List UInt8 → Option (List Nat)
  | [] => some []
  | a :: b :: rest => do return number bigEndian [a, b] :: (← pairs bigEndian rest)
  | _ => none

/-- Groups of four bytes as numbers. Bytes too many are refused. -/
def quads (bigEndian : Bool) : List UInt8 → Option (List Nat)
  | [] => some []
  | a :: b :: c :: d :: rest => do
    return number bigEndian [a, b, c, d] :: (← quads bigEndian rest)
  | _ => none

/-- Characters of 16-bit units. Halves of a pair may not stand alone. -/
def ofUnits : List Nat → Option (List Char)
  | [] => some []
  | unit :: rest =>
    if 0xD800 ≤ unit ∧ unit < 0xDC00 then
      match rest with
      | low :: rest =>
        if 0xDC00 ≤ low ∧ low < 0xE000 then do
          return Char.ofNat (0x10000 + (unit - 0xD800) * 0x400 + (low - 0xDC00)) :: (← ofUnits rest)
        else none
      | [] => none
    else if 0xDC00 ≤ unit ∧ unit < 0xE000 then none
    else do return Char.ofNat unit :: (← ofUnits rest)

def ofUtf8 (bytes : List UInt8) : Option String := String.fromUTF8? (ByteArray.mk bytes.toArray)

def ofUtf16 (bigEndian : Bool) (bytes : List UInt8) : Option String := do
  return String.ofList (← ofUnits (← pairs bigEndian bytes))

def ofUtf32 (bigEndian : Bool) (bytes : List UInt8) : Option String := do
  let chars ← (← quads bigEndian bytes).mapM fun n =>
    if n.isValidChar then some (Char.ofNat n) else none
  return String.ofList chars

/-- A character for each byte. -/
def ofBytes (char : UInt8 → Option Char) (bytes : List UInt8) : Option String :=
  String.ofList <$> bytes.mapM char

/-- The eight places in which it differs from Latin-1. -/
def latin9Char (byte : UInt8) : Char :=
  match byte with
  | 0xA4 => '€' | 0xA6 => 'Š' | 0xA8 => 'š' | 0xB4 => 'Ž'
  | 0xB8 => 'ž' | 0xBC => 'Œ' | 0xBD => 'œ' | 0xBE => 'Ÿ'
  | byte => Char.ofNat byte.toNat

/-- The bytes from 0x80 to 0x9F, of which five stand for nothing. -/
def windowsChars : List (Option Char) :=
  [some '€', none, some '‚', some 'ƒ', some '„', some '…', some '†', some '‡',
   some 'ˆ', some '‰', some 'Š', some '‹', some 'Œ', none, some 'Ž', none,
   none, some '‘', some '’', some '“', some '”', some '•', some '–', some '—',
   some '˜', some '™', some 'š', some '›', some 'œ', none, some 'ž', some 'Ÿ']

def windowsChar (byte : UInt8) : Option Char :=
  if byte < 0x80 ∨ 0xA0 ≤ byte then some (Char.ofNat byte.toNat)
  else windowsChars.getD (byte.toNat - 0x80) none

def wellFormed (text : Option String) : Except DecodeError String :=
  match text with
  | some text => .ok text
  | none => .error .malformed

/-- Bytes with no mark, read with the low byte first, which only the empty text may do without. -/
def unmarked (text : Option String) : Except DecodeError String := do
  let text ← wellFormed text
  if text.isEmpty then return text else throw .unmarked

/-- The text in the bytes. -/
def decode (encoding : Encoding) (bytes : List UInt8) : Except DecodeError String :=
  match encoding with
  | utf8 => wellFormed (ofUtf8 bytes)
  | utf8Marked =>
    match bytes with
    | 0xEF :: 0xBB :: 0xBF :: rest => wellFormed (ofUtf8 rest)
    | [0xEF, 0xBB] | [0xEF] => .ok ""
    | bytes => wellFormed (ofUtf8 bytes)
  | ascii =>
    wellFormed (ofBytes (fun byte => if byte < 0x80 then Char.ofNat byte.toNat else none) bytes)
  | latin1 => wellFormed (ofBytes (fun byte => some (Char.ofNat byte.toNat)) bytes)
  | latin9 => wellFormed (ofBytes (fun byte => some (latin9Char byte)) bytes)
  | windows1252 => wellFormed (ofBytes windowsChar bytes)
  | utf16 bigEndian => wellFormed (ofUtf16 bigEndian bytes)
  | utf16Marked =>
    match bytes with
    | 0xFF :: 0xFE :: rest => wellFormed (ofUtf16 false rest)
    | 0xFE :: 0xFF :: rest => wellFormed (ofUtf16 true rest)
    | bytes => unmarked (ofUtf16 false bytes)
  | utf32 bigEndian => wellFormed (ofUtf32 bigEndian bytes)
  | utf32Marked =>
    match bytes with
    | 0xFF :: 0xFE :: 0 :: 0 :: rest => wellFormed (ofUtf32 false rest)
    | 0 :: 0 :: 0xFE :: 0xFF :: rest => wellFormed (ofUtf32 true rest)
    | bytes => unmarked (ofUtf32 false bytes)

end Encoding

end Partbook
