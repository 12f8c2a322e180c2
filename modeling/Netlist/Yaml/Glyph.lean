import Netlist.Text

/-!
# Glyphs of a document

The characters of a YAML document with their places.  A carriage return, a
newline, both together and the next-line character are one and the same line
break; the line separator and the paragraph separator break lines too, but are
kept apart because they survive folding.  Control characters are refused
wherever they stand.
-/

namespace Netlist

namespace Yaml

/-- A character with its line and column, both counted from zero. -/
structure Glyph where
  char : Char
  line : Nat
  column : Nat
deriving DecidableEq, Repr

def isBreak (c : Char) : Bool := c == '\n' || c == '\u2028' || c == '\u2029'

def isSpace (c : Char) : Bool := c == ' ' || c == '\t'

/-- The character that may mark the encoding at the start of a line. -/
def byteOrderMark : Char := '\ufeff'

/-- First and last code point of each range of characters that a document may hold. -/
def allowedRanges : List (Nat × Nat) :=
  [(0x9, 0xA), (0xD, 0xD), (0x20, 0x7E), (0x85, 0x85), (0xA0, 0xD7FF), (0xE000, 0xFFFD),
    (0x10000, 0x10FFFF)]

def isAllowed (c : Char) : Bool :=
  allowedRanges.any fun (low, high) => low ≤ c.toNat && c.toNat ≤ high

/-- Writes every line break that is none of the two separators as a newline. -/
def unifyBreaks : Text → Text
  | [] => []
  | '\r' :: '\n' :: rest => '\n' :: unifyBreaks rest
  | first :: rest =>
      (if first == '\r' || first == '\u0085' then '\n' else first) :: unifyBreaks rest

/-- Places characters from the given line and column on. -/
def glyphsFrom (line column : Nat) : Text → List Glyph
  | [] => []
  | first :: rest =>
      ⟨first, line, column⟩ ::
        if isBreak first then glyphsFrom (line + 1) 0 rest else glyphsFrom line (column + 1) rest

/-- The glyphs of a source, if it holds no refused character. -/
def glyphs? (source : Text) : Option (List Glyph) :=
  if source.all isAllowed then some (glyphsFrom 0 0 (unifyBreaks source)) else none

/-- The source ends here, or a space or line break follows. -/
def endsWord : List Glyph → Bool
  | [] => true
  | first :: _ => isSpace first.char || isBreak first.char

/-- The line ends here. -/
def endsLine : List Glyph → Bool
  | [] => true
  | first :: _ => isBreak first.char

def startsWith (c : Char) : List Glyph → Bool
  | [] => false
  | first :: _ => first.char == c

def startsWithAny (chars : Text) : List Glyph → Bool
  | [] => false
  | first :: _ => chars.contains first.char

/-- Three dashes or three points at the start of a line, as a word of their own. -/
def isDocumentMark : List Glyph → Bool
  | first :: second :: third :: rest =>
      first.column == 0 && (first.char == '-' || first.char == '.') &&
        second.char == first.char && third.char == first.char && endsWord rest
  | _ => false

def skipSpaces (glyphs : List Glyph) : List Glyph :=
  glyphs.dropWhile fun glyph => isSpace glyph.char

/-- Leaves out spaces, a comment and the line break; nothing else may stand before the break. -/
def finishLine? (glyphs : List Glyph) : Option (List Glyph) :=
  let behind := skipSpaces glyphs
  let behind :=
    if startsWith '#' behind then behind.dropWhile fun glyph => !isBreak glyph.char else behind
  if endsLine behind then some (behind.drop 1) else none

/-- Splits off the characters of a class. -/
def splitWhile (inside : Char → Bool) (glyphs : List Glyph) : Text × List Glyph :=
  ((glyphs.takeWhile fun glyph => inside glyph.char).map Glyph.char,
    glyphs.dropWhile fun glyph => inside glyph.char)

/-- Characters of names: letters, digits, underscore and dash. -/
def isNameChar (c : Char) : Bool := c.isAlphanum || c == '_' || c == '-'

def hexValue (c : Char) : Option Nat :=
  if c.isDigit then some (c.toNat - '0'.toNat)
  else if 'a' ≤ c && c ≤ 'f' then some (c.toNat - 'a'.toNat + 10)
  else if 'A' ≤ c && c ≤ 'F' then some (c.toNat - 'A'.toNat + 10)
  else none

/-- The value of hexadecimal digits. -/
def hexNumber? (digits : Text) : Option Nat :=
  digits.foldl (fun value digit => do
    let value ← value
    let digit ← hexValue digit
    return 16 * value + digit) (some 0)

/-- The character with a code point, if there is one. -/
def charAt? (code : Nat) : Option Char :=
  if h : code.isValidChar then some (Char.ofNatAux code h) else none

end Yaml

end Netlist
