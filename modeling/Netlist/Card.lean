import Netlist.Text.Blank

/-!
# Cards and decks

A card is one statement of a netlist with the number of its source line, an
optional error note and a mark for statements that are commented out.  A deck
is a list of cards.  In a source, a line that starts with `+` continues a live
statement above it, one that starts with `*` is a comment, and blank lines do
not count.
-/

namespace Netlist

structure Card where
  text : Text
  /-- Source line, counted from one; zero for a card made during expansion. -/
  number : Nat := 0
  note : Option Text := none
  disabled : Bool := false
deriving DecidableEq, Repr, Inhabited

namespace Card

def isLive (card : Card) : Bool := !card.disabled

def keyword (card : Card) : Text := Text.firstWord card.text

/-- The statement behind its keyword. -/
def operand (card : Card) : Text :=
  (Text.trimStart card.text).dropWhile fun c => !isBlank c

def disable (card : Card) : Card := { card with disabled := true }

/-- Notes an error; of several the first one stays. -/
def annotate (card : Card) (message : Text) : Card :=
  { card with note := card.note.or (some message) }

def render (card : Card) : Text :=
  if card.disabled then '*' :: card.text else card.text

/-- The card of a trimmed source line. -/
def ofLine (line : Text) (number : Nat) : Card :=
  match line with
  | '*' :: comment => { text := comment, number, disabled := true }
  | _ => { text := line, number }

end Card

abbrev Deck := List Card

namespace Deck

/-- The text of a continuation, if there is a live card to continue. -/
def continuation? (line : Text) (reversed : List Card) : Option (Text × Card × List Card) :=
  match line, reversed with
  | '+' :: rest, last :: before => if last.isLive then some (rest, last, before) else none
  | _, _ => none

/-- Adds a trimmed, non-empty line to the cards read so far, last one first. -/
def addLine (reversed : List Card) (number : Nat) (line : Text) : List Card :=
  match continuation? line reversed with
  | some (rest, last, before) =>
      { last with text := last.text ++ " " ++ Text.trim rest } :: before
  | none => Card.ofLine line number :: reversed

/-- Reads further lines, of which the first has the given number. -/
def readFrom (reversed : List Card) (number : Nat) : List Text → Deck
  | [] => reversed.reverse
  | first :: rest =>
      let line := Text.trim first
      if line.isEmpty then readFrom reversed (number + 1) rest
      else readFrom (addLine reversed number line) (number + 1) rest

def ofSource (source : Text) : Deck := readFrom [] 1 (Text.lines source)

/-- Every card on a line of its own, disabled ones behind a star. -/
def render (deck : Deck) : Text := deck.flatMap fun card => card.render ++ "\n"

def live (deck : Deck) : Deck := deck.filter Card.isLive

def liveTexts (deck : Deck) : List Text := deck.live.map Card.text

/-- The live statements, each on a line of its own. -/
def liveText (deck : Deck) : Text := deck.liveTexts.flatMap fun text => text ++ "\n"

/-- No card is live. -/
def isBlank (deck : Deck) : Bool := deck.all Card.disabled

end Deck

end Netlist
