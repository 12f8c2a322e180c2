import Netlist.Text.Blank

/-!
# Words

The positional view of a statement: a word is a longest run of characters that
are neither blank nor a comma, and it carries its byte position, so that the
text behind it can be kept as written.  The `name=value` tail of a statement
starts at the name in front of the first equals sign.
-/

namespace Netlist

structure Word where
  text : Text
  start : Nat
deriving DecidableEq, Repr

namespace Word

/-- The byte position behind the last character. -/
def stop (word : Word) : Nat := word.start + Text.byteSize word.text

def isSeparator (c : Char) : Bool := isBlank c || c == ','

def isInner (c : Char) : Bool := !isSeparator c

/-- The words of a text whose first character stands at byte `start`. -/
def splitFrom (start : Nat) : Text → List Word
  | [] => []
  | first :: rest =>
      if isSeparator first then splitFrom (start + first.utf8Size) rest
      else
        let body := first :: rest.takeWhile isInner
        ⟨body, start⟩ :: splitFrom (start + Text.byteSize body) (rest.dropWhile isInner)
termination_by text => text.length
decreasing_by
  · simp
  · have shorter := (List.dropWhile_suffix (l := rest) isInner).length_le
    simp only [List.length_cons]
    omega

def split (text : Text) : List Word := splitFrom 0 text

/-- The word that may stand before assignments and means nothing itself. -/
def introduces (text : Text) : Bool := Text.sameLetters text "params:"

/-- The texts of the words that mean something. -/
def operands (words : List Word) : List Text :=
  (words.map text).filter fun text => !introduces text

end Word

namespace Text

/-- Leaves out trailing spaces and tabs, and no other blank. -/
def dropTrailingTabs (text : Text) : Text :=
  (text.reverse.dropWhile fun c => c == ' ' || c == '\t').reverse

/-- The part of a text up to and including its last separator. -/
def throughLastSeparator (text : Text) : Text :=
  (text.reverse.dropWhile fun c => !Word.isSeparator c).reverse

/-- The text in front of the first equals sign, if there is one. -/
def beforeEquals? (text : Text) : Option Text :=
  (cutAt '=' text).map Prod.fst

/-- The byte position at which the assignments of a statement begin: the start of
the name before the first equals sign, or the end of a text without one. -/
def assignmentStart (text : Text) : Nat :=
  match beforeEquals? text with
  | none => byteSize text
  | some head => byteSize (throughLastSeparator (dropTrailingTabs head))

/-- The statement without its assignments. -/
def positional (text : Text) : Text := takeBytes (assignmentStart text) text

/-- The assignments of a statement. -/
def assignments (text : Text) : Text := dropBytes (assignmentStart text) text

/-- The name that a statement declares: the word behind its keyword. -/
def declaredName? (text : Text) : Option Text := ((Word.split text)[1]?).map Word.text

end Text

end Netlist
