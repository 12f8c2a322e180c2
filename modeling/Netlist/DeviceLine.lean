import Netlist.Device
import Netlist.Numeral
import Netlist.Reference
import Netlist.Scope
import Netlist.Token
import Netlist.Word

/-!
# Device lines

The words of a device line have roles: the device itself, its nodes, the
controlling names of a polynomial source, references to other devices, a
model.  The kind of the device decides how many words of each role there can
be, and an assignment ends them.  The words behind them are parameters.
-/

namespace Netlist

/-- A leading word, or group of words, of a device line, by what it stands for. -/
inductive Part where
  | device (name : Text)
  | node (name : Text)
  /-- The controlling names of a polynomial of this dimension. -/
  | controls (role : Role) (dimension : Nat) (names : List Text)
  | reference (name : Text)
  /-- A model under the name that it has by now. -/
  | model (name : Text)
deriving DecidableEq, Repr

namespace DeviceLine

/-- A word is part of an assignment if an equals sign is in it or starts the next word. -/
def isAssignment (first : Word) (rest : List Word) : Bool :=
  first.text.contains '=' ||
    match rest with
    | [] => false
    | next :: _ => next.text.head? == some '='

/-- The word is `poly`, with nothing or a parenthesis behind it. -/
def isPoly (word : Text) : Bool :=
  match Token.scan word with
  | [] => false
  | first :: rest =>
      first.kind = .ident && Text.sameLetters first.text "poly" &&
        match rest with
        | [] => true
        | next :: _ => next.kind = .parenOpen

def isParenthesis (c : Char) : Bool := c == '(' || c == ')'

def dropClosing (text : Text) : Text := (text.reverse.dropWhile (· == ')')).reverse

/-- The dimension in the same word as `poly`, if a parenthesis opens there. -/
def innerDimension? (word : Text) : Option Text :=
  (Text.cutAt '(' word).map fun (_, inner) => Text.trim (dropClosing inner)

def maxDimension : Nat := 20

/-- The dimension as written, and the words behind it. -/
def splitDimension (first : Word) (rest : List Word) : Except Fault (Text × List Word) :=
  match innerDimension? first.text with
  | some dimension => .ok (dimension, rest)
  | none =>
      match rest with
      | [] => .error (.malformedPoly "missing dimension")
      | next :: rest => .ok (Text.strip isParenthesis next.text, rest)

/-- Up to `count` names, without the parentheses around them, and the words behind them. -/
def takeNames : (count : Nat) → List Word → List Text × List Word
  | 0, words => ([], words)
  | _ + 1, [] => ([], [])
  | count + 1, first :: rest =>
      let name := Text.strip isParenthesis first.text
      if name.isEmpty then takeNames (count + 1) rest
      else
        let (names, words) := takeNames count rest
        (name :: names, words)

/-- How many controlling names one dimension has. -/
def namesPerDimension : Role → Nat
  | .node => 2
  | .device => 1

/-- Reads a polynomial that starts with the word `first`. -/
def splitPoly (role : Role) (first : Word) (rest : List Word) :
    Except Fault (Part × List Word) :=
  match splitDimension first rest with
  | .error fault => .error fault
  | .ok (written, words) =>
      match Numeral.count? written with
      | none => .error (.malformedPoly ("bad dimension '" ++ written ++ "'"))
      | some dimension =>
          if maxDimension < dimension then
            .error (.malformedPoly ("dimension " ++ Text.ofNat dimension ++
              " out of range 0..=" ++ Text.ofNat maxDimension))
          else
            let needed := namesPerDimension role * dimension
            let (names, behind) := takeNames needed words
            if names.length < needed then
              .error (.malformedPoly ("expected " ++ Text.ofNat needed ++
                " controlling names, found " ++ Text.ofNat names.length))
            else .ok (.controls role dimension names, behind)

/-- What ended a run of node words. -/
inductive Ending where
  | open
  | poly
  | model
deriving DecidableEq, Repr

/-- Leading parts of a line, what ended them and the words behind them. -/
structure Run where
  parts : List Part
  ending : Ending
  rest : List Word
deriving DecidableEq, Repr

namespace Run

def behind (part : Part) (run : Run) : Run := { run with parts := part :: run.parts }

end Run

variable {policy : CasePolicy}

/-- The model in an optional node slot, if the word is one. -/
def slotModel (scopes : Scopes policy) (kind : DeviceKind) (count : Nat) (word : Text) :
    Except Fault (Option Text) :=
  if kind.hasModel && kind.minNodes ≤ count then scopes.model word else .ok none

/-- Reads node words, of which there have been `count`. -/
def nodeRun (scopes : Scopes policy) (kind : DeviceKind) (count : Nat) :
    List Word → Except Fault Run
  | [] => .ok ⟨[], .open, []⟩
  | first :: rest =>
      if kind.maxNodes ≤ count || isAssignment first rest then
        .ok ⟨[], .open, first :: rest⟩
      else if isPoly first.text then
        match splitPoly .node first rest with
        | .error fault => .error fault
        | .ok (part, words) => .ok ⟨[part], .poly, words⟩
      else
        match slotModel scopes kind count first.text with
        | .error fault => .error fault
        | .ok (some name) => .ok ⟨[.model name], .model, rest⟩
        | .ok none =>
            match nodeRun scopes kind (count + 1) rest with
            | .error fault => .error fault
            | .ok run => .ok (run.behind (.node first.text))

/-- Reads at most `count` references to other devices. -/
def referenceRun : (count : Nat) → List Word → Except Fault (List Part × List Word)
  | 0, words => .ok ([], words)
  | _ + 1, [] => .ok ([], [])
  | count + 1, first :: rest =>
      if isAssignment first rest then .ok ([], first :: rest)
      else if isPoly first.text then
        match splitPoly .device first rest with
        | .error fault => .error fault
        | .ok (part, words) => .ok ([part], words)
      else
        match referenceRun count rest with
        | .error fault => .error fault
        | .ok (parts, words) => .ok (.reference first.text :: parts, words)

/-- Reads the model that the device `name` must have. -/
def modelPart (strict : Bool) (scopes : Scopes policy) (name : Text) :
    List Word → Except Fault (Part × List Word)
  | [] => .error (.missingModel name)
  | first :: rest =>
      if isAssignment first rest then .error (.missingModel name)
      else
        match scopes.model first.text with
        | .error fault => .error fault
        | .ok (some image) => .ok (.model image, rest)
        | .ok none =>
            if strict then .error (.unknownModel name first.text)
            else .ok (.model first.text, rest)

/-- Reads a model in the place of a value, if the innermost scope knows it. -/
def valueModel (scopes : Scopes policy) : List Word → Except Fault (List Part × List Word)
  | [] => .ok ([], [])
  | first :: rest =>
      if isAssignment first rest then .ok ([], first :: rest)
      else if (first.text.head?.map Char.isAlpha).getD false then
        match scopes.localModel first.text with
        | .error fault => .error fault
        | .ok (some image) => .ok ([.model image], rest)
        | .ok none => .ok ([], first :: rest)
      else .ok ([], first :: rest)

/-- The parts behind the device name, and the words that are parameters. -/
structure Layout where
  parts : List Part
  rest : List Word
deriving DecidableEq, Repr

namespace Layout

def after (parts : List Part) (layout : Layout) : Layout :=
  { layout with parts := parts ++ layout.parts }

end Layout

/-- Lays out what stands in the place of a value. -/
def valueLayout (scopes : Scopes policy) (words : List Word) : Except Fault Layout :=
  match valueModel scopes words with
  | .error fault => .error fault
  | .ok (parts, rest) => .ok ⟨parts, rest⟩

/-- Lays out what follows nodes and references. -/
def modelLayout (strict : Bool) (scopes : Scopes policy) (kind : DeviceKind) (name : Text)
    (words : List Word) : Except Fault Layout :=
  if kind.hasModel then
    match modelPart strict scopes name words with
    | .error fault => .error fault
    | .ok (part, rest) => .ok ⟨[part], rest⟩
  else valueLayout scopes words

/-- Lays out what follows the nodes. -/
def behindNodes (strict : Bool) (scopes : Scopes policy) (kind : DeviceKind) (name : Text)
    (run : Run) : Except Fault Layout :=
  match run.ending with
  | .model => .ok ⟨[], run.rest⟩
  | .poly => modelLayout strict scopes kind name run.rest
  | .open =>
      match referenceRun kind.references run.rest with
      | .error fault => .error fault
      | .ok (parts, words) =>
          match modelLayout strict scopes kind name words with
          | .error fault => .error fault
          | .ok layout => .ok (layout.after parts)

/-- Lays out the words behind the name of a device of the given kind, if it is known. -/
def layout (strict : Bool) (scopes : Scopes policy) (kind : Option DeviceKind) (name : Text)
    (words : List Word) : Except Fault Layout :=
  match kind with
  | none => valueLayout scopes words
  | some kind =>
      match nodeRun scopes kind 0 words with
      | .error fault => .error fault
      | .ok run =>
          match behindNodes strict scopes kind name run with
          | .error fault => .error fault
          | .ok layout => .ok (layout.after run.parts)

/-- The kind of device that a name belongs to, by its first letter. -/
def kind? (catalog : Catalog) (name : Text) : Option DeviceKind :=
  name.head?.bind catalog.kind?

/-- The byte position behind at most `count` node words, starting from `stop`. -/
def nodeStop (stop : Nat) : (count : Nat) → List Word → Nat
  | 0, _ => stop
  | _ + 1, [] => stop
  | count + 1, first :: rest =>
      if isAssignment first rest || isPoly first.text then stop
      else nodeStop first.stop count rest

/-- The byte position at which the name and the nodes of a device line end. -/
def nodeSpan (catalog : Catalog) (text : Text) : Nat :=
  match Word.split text with
  | [] => Text.byteSize text
  | name :: rest =>
      match kind? catalog name.text with
      | none => name.stop
      | some kind => nodeStop name.stop kind.passedNodes rest

/-- The text from the first of the given words on. -/
def textFrom (text : Text) : List Word → Text
  | [] => []
  | first :: _ => Text.dropBytes first.start text

end DeviceLine

end Netlist
