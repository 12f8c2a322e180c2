import Netlist.Text

/-!
# Blanks, words and lines

The blanks are the 25 code points with the Unicode property `White_Space`.
A trimmed text neither starts nor ends with one, and a plain word is a run of
characters between two of them.
-/

namespace Netlist

/-- First and last code point of each range of blanks, ascending. -/
def blankRanges : List (Nat × Nat) :=
  [(0x9, 0xD), (0x20, 0x20), (0x85, 0x85), (0xA0, 0xA0), (0x1680, 0x1680),
    (0x2000, 0x200A), (0x2028, 0x2029), (0x202F, 0x202F), (0x205F, 0x205F),
    (0x3000, 0x3000)]

def isBlank (c : Char) : Bool :=
  blankRanges.any fun (low, high) => low ≤ c.toNat && c.toNat ≤ high

namespace Text

def trimStart (text : Text) : Text := text.dropWhile isBlank

def trimEnd (text : Text) : Text := (text.reverse.dropWhile isBlank).reverse

def trim (text : Text) : Text := trimEnd (trimStart text)

/-- The first plain word; empty when there is none. -/
def firstWord (text : Text) : Text :=
  (trimStart text).takeWhile fun c => !isBlank c

/-- Removes every leading and trailing character of a class. -/
def strip (drop : Char → Bool) (text : Text) : Text :=
  ((text.dropWhile drop).reverse.dropWhile drop).reverse

/-- Closes a line at its newline, leaving out one carriage return before it. -/
def closeLine (reversed : Text) : Text :=
  match reversed with
  | '\r' :: rest => rest.reverse
  | _ => reversed.reverse

/-- The lines of a source behind an unfinished line, which stands in reverse in `reversed`. -/
def linesFrom (reversed : Text) : Text → List Text
  | [] => if reversed.isEmpty then [] else [reversed.reverse]
  | first :: rest =>
      if first = '\n' then closeLine reversed :: linesFrom [] rest
      else linesFrom (first :: reversed) rest

/-- The lines of a source. A newline ends a line, so no empty line follows the last one. -/
def lines (source : Text) : List Text := linesFrom [] source

theorem not_isBlank_of_mem_firstWord {c : Char} {text : Text}
    (member : c ∈ firstWord text) : isBlank c = false := by
  have held := List.all_takeWhile (p := fun c => !isBlank c) (l := trimStart text)
  simpa using List.all_eq_true.mp held c member

end Text

end Netlist
