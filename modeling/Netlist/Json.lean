import Netlist.Text

/-!
# JSON

Values and their printed form: one item or field per line, two spaces of
indentation for each level, empty lists and records closed at once.
-/

namespace Netlist

inductive Json where
  | null
  | bool (value : Bool)
  | number (value : Nat)
  | text (value : Text)
  | list (items : List Json)
  | record (fields : List (Text × Json))

namespace Json

/-- Characters whose escape is a backslash and one letter. -/
def shortEscapes : List (Char × Char) :=
  [('"', '"'), ('\\', '\\'), (Char.ofNat 8, 'b'), (Char.ofNat 12, 'f'), ('\n', 'n'), ('\r', 'r'),
    ('\t', 't')]

/-- Quotes, backslashes and control characters are escaped, all else stands as it is. -/
def escape (c : Char) : Text :=
  match shortEscapes.find? fun entry => entry.1 == c with
  | some (_, letter) => ['\\', letter]
  | none =>
      if c.toNat < 0x20 then
        let digits := Nat.toDigits 16 c.toNat
        "\\u" ++ (List.replicate (4 - digits.length) '0' ++ digits)
      else [c]

def quote (text : Text) : Text := '"' :: text.flatMap escape ++ ['"']

def newline (indent : Nat) : Text := '\n' :: List.replicate (2 * indent) ' '

mutual

/-- The printed form of a value that stands `indent` levels deep. -/
def render (indent : Nat) : Json → Text
  | .null => "null"
  | .bool true => "true"
  | .bool false => "false"
  | .number value => Text.ofNat value
  | .text value => quote value
  | .list [] => "[]"
  | .list (first :: rest) =>
      "[" ++ newline (indent + 1) ++ render (indent + 1) first ++ renderItems (indent + 1) rest ++
        newline indent ++ "]"
  | .record [] => "\x7b\x7d"
  | .record ((name, first) :: rest) =>
      "\x7b" ++ newline (indent + 1) ++ quote name ++ ": " ++ render (indent + 1) first ++
        renderFields (indent + 1) rest ++ newline indent ++ "\x7d"

/-- Further items, each behind a comma. -/
def renderItems (indent : Nat) : List Json → Text
  | [] => []
  | first :: rest => "," ++ newline indent ++ render indent first ++ renderItems indent rest

/-- Further fields, each behind a comma. -/
def renderFields (indent : Nat) : List (Text × Json) → Text
  | [] => []
  | (name, first) :: rest =>
      "," ++ newline indent ++ quote name ++ ": " ++ render indent first ++
        renderFields indent rest

end

/-- A document on its own. -/
def print (value : Json) : Text := value.render 0

def texts (items : List Text) : Json := .list (items.map .text)

def option (value : Option Text) : Json :=
  match value with
  | none => .null
  | some content => .text content

end Json

end Netlist
